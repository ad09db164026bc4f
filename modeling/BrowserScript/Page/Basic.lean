import BrowserScript.Decimal.Text

/-!
What a page shows and takes: element handles, property values, visibility, events, change records
and errors.
-/

namespace BrowserScript.Page

/-- An element, as the page names it to others. -/
structure Handle where
  id : Nat
deriving DecidableEq, Repr, Inhabited

inductive PropertyValue
  | bool (b : Bool)
  | number (f : Float)
  | text (s : String)
deriving Inhabited

namespace PropertyValue

/-- The text a script sees when it converts the value. -/
def toText : PropertyValue → String
  | .bool b => if b then "true" else "false"
  | .number f => Decimal.clamped f
  | .text s => s

def isTruthy : PropertyValue → Bool
  | .bool b => b
  | .number f => !(f == 0) && !f.isNaN
  | .text s => s != ""

def isTrue : PropertyValue → Bool
  | .bool b => b
  | _ => false

end PropertyValue

/-- Computed style and size of an element. -/
structure Visibility where
  display : String
  visibility : String
  opacity : Float
  width : Float
  height : Float
  /-- The element or an ancestor carries the class `hidden`. -/
  hiddenClass : Bool

/-- Displayed, not hidden by style, and with a box that is not empty. -/
def Visibility.isRendered (v : Visibility) : Bool :=
  v.display != "none" && v.visibility != "hidden" && 0 < v.width && 0 < v.height

/-- Rendered, not transparent and not below the class `hidden`. -/
def Visibility.isVisible (v : Visibility) : Bool :=
  v.isRendered && !(v.opacity == 0) && !v.hiddenClass

inductive EventKind
  | click | input | change | focus | blur | mouseenter | mouseleave | keydown | keyup
deriving DecidableEq, Repr

namespace EventKind

def all : List EventKind :=
  [.click, .input, .change, .focus, .blur, .mouseenter, .mouseleave, .keydown, .keyup]

def word : EventKind → String
  | .click => "click"
  | .input => "input"
  | .change => "change"
  | .focus => "focus"
  | .blur => "blur"
  | .mouseenter => "mouseenter"
  | .mouseleave => "mouseleave"
  | .keydown => "keydown"
  | .keyup => "keyup"

def named? (s : String) : Option EventKind := all.find? (·.word == s)

/-- The interface an event of the kind is made with. -/
def interface : EventKind → String
  | .click | .mouseenter | .mouseleave => "MouseEvent"
  | .keydown | .keyup => "KeyboardEvent"
  | .focus | .blur => "FocusEvent"
  | .input | .change => "Event"

end EventKind

structure Event where
  kind : EventKind
  bubbles : Bool
  cancelable : Bool := false
  button : Option Int := none
  key : Option String := none
  keyCode : Option Nat := none
deriving DecidableEq, Repr

namespace Event

/-- An event of the main mouse button. -/
def mouse (kind : EventKind) : Event :=
  { kind, bubbles := true, cancelable := true, button := some 0 }

def plain (kind : EventKind) (bubbles : Bool) : Event := { kind, bubbles }

/-- A key event; its code is that of the first character of the key. -/
def keyboard (kind : EventKind) (key : String) : Event :=
  { kind, bubbles := false, key := some key,
    keyCode := some ((key.toList.head?.map Char.toNat).getD 0) }

end Event

inductive EventTarget
  | element (h : Handle)
  | document
deriving DecidableEq, Repr

def EventTarget.toText : EventTarget → String
  | .element h => toString h.id
  | .document => "document"

inductive ChangeKind
  | childList | attributes | characterData
deriving DecidableEq, Repr

def ChangeKind.word : ChangeKind → String
  | .childList => "childList"
  | .attributes => "attributes"
  | .characterData => "characterData"

/-- A change in the document. -/
structure Change where
  kind : ChangeKind
  target : Handle
  attributeName : Option String := none
deriving DecidableEq, Repr

inductive Error
  | invalidSelector (text : String)
  | invalidXPath (text : String)
  | staleElement (id : Nat)
  | navigationFailed (text : String)
  | script (text : String)
  | backend (text : String)
deriving DecidableEq, Repr, Inhabited

/-- The kind of an error, for programs. -/
def Error.kind : Error → String
  | .invalidSelector _ => "InvalidSelector"
  | .invalidXPath _ => "InvalidXPath"
  | .staleElement _ => "StaleElement"
  | .navigationFailed _ => "NavigationFailed"
  | .script _ => "JavaScript"
  | .backend _ => "Backend"

def Error.message : Error → String
  | .invalidSelector text => "Invalid selector: " ++ text
  | .invalidXPath text => "Invalid XPath expression: " ++ text
  | .staleElement id => "Stale element handle: " ++ toString id
  | .navigationFailed text => "Navigation failed: " ++ text
  | .script text => "JavaScript error: " ++ text
  | .backend text => "Page backend error: " ++ text

end BrowserScript.Page
