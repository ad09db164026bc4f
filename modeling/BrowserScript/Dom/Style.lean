import BrowserScript.Dom.Basic
import BrowserScript.Decimal.Text

/-!
Computed style, as far as inline declarations, the `hidden` attribute and the kind of element
decide it, and the text that is rendered.
-/

namespace BrowserScript.Dom

/-- A declaration's name and value. -/
def declaration? (cs : List Char) : Option (String × String) :=
  (Text.splitAt? [':'] cs).map fun (name, value) =>
    (Text.asciiLowered (Text.trimmed (String.ofList name)),
      Text.asciiLowered (Text.trimmed (String.ofList value)))

/-- What the element's own `style` attribute says; the first declaration counts. -/
def inlineStyle? (d : Dom) (n : NodeId) (property : String) : Option String := do
  let style ← d.attribute? n "style"
  let found ← ((Text.splitOn ';' style.toList).filterMap declaration?).find? (·.1 == property)
  some found.2

def undisplayedTags : List String :=
  ["head", "script", "style", "title", "meta", "link", "template"]

def inlineTags : List String :=
  ["span", "a", "label", "button", "input", "select", "textarea", "img", "b", "i", "strong", "em"]

def display (d : Dom) (n : NodeId) : String :=
  match d.inlineStyle? n "display", d.tag? n with
  | some value, _ => value
  | none, none => "block"
  | none, some tag =>
    if undisplayedTags.contains tag || d.hasAttribute n "hidden" then "none"
    else if inlineTags.contains tag then "inline" else "block"

/-- Inherited from the nearest ancestor that sets it. -/
def visibility (d : Dom) (n : NodeId) : String :=
  ((n :: d.ancestors n).findSome? fun a => d.inlineStyle? a "visibility").getD "visible"

def opacity (d : Dom) (n : NodeId) : Float :=
  ((d.inlineStyle? n "opacity").bind fun o => Decimal.float? o.toList).getD 1

/-- Whether the node or an ancestor is not displayed. -/
def isUndisplayed (d : Dom) (n : NodeId) : Bool :=
  ((n :: d.ancestors n).filter d.isElement).any fun a => d.display a == "none"

/-- The box of elements that were given none. -/
def usualSize : Float × Float := (100, 20)

/-- Width and height. Nodes that are not displayed or not connected have an empty box. -/
def boxSize (d : Dom) (n : NodeId) : Float × Float :=
  if !d.isConnected n || d.isUndisplayed n then (0, 0)
  else ((d.element? n).bind (·.size)).getD usualSize

def computed (d : Dom) (n : NodeId) : Page.Visibility :=
  { display := d.display n
    visibility := d.visibility n
    opacity := d.opacity n
    width := (d.boxSize n).1
    height := (d.boxSize n).2
    hiddenClass := (n :: d.ancestors n).any fun a => (d.classes a).contains "hidden" }

def isBlockDisplay (display : String) : Bool := display != "inline" && display != "inline-block"

mutual

/-- The text a node shows. Blocks stand apart from what is around them. -/
def shown (d : Dom) : Tree → String
  | .node n below =>
    match d.text? n, d.tag? n with
    | some s, _ => s
    | none, none => ""
    | none, some tag =>
      let display := d.display n
      if display == "none" then ""
      else
        let block := isBlockDisplay display
        (if block || tag == "br" then " " else "") ++ shownAll d below
          ++ (if block then " " else "")

def shownAll (d : Dom) : List Tree → String
  | [] => ""
  | t :: rest => shown d t ++ shownAll d rest

end

/-- The rendered text below a node, its words one space apart. -/
def innerText (d : Dom) (n : NodeId) : String :=
  Text.collapse (shownAll d (d.tree n).children)

/-! ## Options of a selection list -/

def options (d : Dom) (list : NodeId) : List NodeId :=
  (d.descendantElements list).filter fun n => d.tag? n == some "option"

/-- The value attribute of an option, its text if there is none. -/
def optionValue (d : Dom) (n : NodeId) : String :=
  (d.attribute? n "value").getD (Text.trimmed (d.textContent n))

def property? (d : Dom) (n : NodeId) (name : String) : Option Page.PropertyValue :=
  (d.element? n).bind (·.property? name)

def isOptionSelected (d : Dom) (n : NodeId) : Bool :=
  match d.property? n "selected" with
  | some v => v.isTruthy
  | none => d.hasAttribute n "selected"

end BrowserScript.Dom
