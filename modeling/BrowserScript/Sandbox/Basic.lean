import BrowserScript.Page.Request
import BrowserScript.Sandbox.Document
import BrowserScript.Selector.Parser
import BrowserScript.XPath.Eval

/-!
A page kept in memory. Listeners react to events in a way that the user of the sandbox decides on:
a reaction is given the target and the event and may do anything to the sandbox. Every change of
the document is recorded, as is every event.
-/

namespace BrowserScript

open Dom (NodeId)
open Page (Handle EventTarget Event EventKind Change)

structure Sandbox.Listener (L : Type) where
  target : EventTarget
  kind : EventKind
  reaction : L

structure Sandbox (L : Type) where
  document : Sandbox.Document
  /-- Documents by the address they are loaded from. -/
  routes : List (String × String) := []
  listeners : List (Sandbox.Listener L) := []
  /-- The events so far, the latest first. -/
  dispatched : List (EventTarget × Event) := []
  /-- The changes of documents so far. -/
  changes : Array Change := #[]

namespace Sandbox

variable {L : Type}

def ofMarkup (url markup : String) : Sandbox L := { document := { dom := .ofMarkup markup, url } }

def events (s : Sandbox L) : List (EventTarget × Event) := s.dispatched.reverse

def dom (s : Sandbox L) : Dom := s.document.dom

def handle (s : Sandbox L) (n : NodeId) : Handle := s.document.handle n

def handles (s : Sandbox L) (ns : List NodeId) : List Handle := ns.map s.handle

def focused (s : Sandbox L) : Option Handle := s.document.focused.map s.handle

def select (s : Sandbox L) (selector : String) : Except Page.Error (List Handle) := do
  let found ← Selector.parse selector
  return s.handles (found.select s.dom Dom.root)

/-! ## Changes from outside -/

def emit (s : Sandbox L) (change : Change) : Sandbox L :=
  { s with changes := s.changes.push change }

def modifyDom (s : Sandbox L) (f : Dom → Dom) : Sandbox L :=
  { s with document := s.document.modifyDom f }

/-- Put one text in place of all children. -/
def setText (s : Sandbox L) (el : Handle) (text : String) : Except Page.Error (Sandbox L) := do
  let n ← s.document.resolve el
  let emptied := (s.dom.children n).foldl Dom.detach s.dom
  return (s.modifyDom fun _ => emptied.createText n text).emit ⟨.childList, el, none⟩

def setAttribute (s : Sandbox L) (el : Handle) (name value : String) :
    Except Page.Error (Sandbox L) := do
  let n ← s.document.resolve el
  let name := Text.asciiLowered name
  return (s.modifyDom fun d => d.setAttribute n name value).emit ⟨.attributes, el, some name⟩

/-- Taking away an attribute that is not there is no change. -/
def removeAttribute (s : Sandbox L) (el : Handle) (name : String) :
    Except Page.Error (Sandbox L) := do
  let n ← s.document.resolve el
  let name := Text.asciiLowered name
  if s.dom.hasAttribute n name then
    return (s.modifyDom fun d => d.removeAttribute n name).emit ⟨.attributes, el, some name⟩
  else return s

/-- Add markup below an element. Also the new elements directly below it. -/
def appendMarkup (s : Sandbox L) (el : Handle) (markup : String) :
    Except Page.Error (List Handle × Sandbox L) := do
  let n ← s.document.resolve el
  let before := (s.dom.children n).length
  let d := s.dom.addMarkup n markup
  let added := ((d.children n).drop before).filter d.isElement
  return (s.handles added, (s.modifyDom fun _ => d).emit ⟨.childList, el, none⟩)

/-- Take an element out of the document. Its handle stays good. -/
def remove (s : Sandbox L) (el : Handle) : Except Page.Error (Sandbox L) := do
  let n ← s.document.resolve el
  match s.dom.parent n with
  | none => return s
  | some p => return (s.modifyDom fun d => d.detach n).emit ⟨.childList, s.handle p, none⟩

def setTitle (s : Sandbox L) (title : String) : Sandbox L :=
  { s with document := { s.document with title := some title } }.emit
    ⟨.childList, s.handle Dom.root, none⟩

def setUrl (s : Sandbox L) (url : String) : Sandbox L :=
  { s with document := { s.document with url } }

def setSize (s : Sandbox L) (el : Handle) (width height : Float) :
    Except Page.Error (Sandbox L) := do
  let n ← s.document.resolve el
  return s.modifyDom fun d => d.modifyElement n fun e => { e with size := some (width, height) }

def addRoute (s : Sandbox L) (url markup : String) : Sandbox L :=
  { s with routes := Dom.putPair url markup s.routes }

def listen (s : Sandbox L) (target : EventTarget) (kind : EventKind) (reaction : L) : Sandbox L :=
  { s with listeners := s.listeners ++ [⟨target, kind, reaction⟩] }

/-- Go to an address. Without a document for it only the address changes. -/
def load (s : Sandbox L) (url : String) : Sandbox L :=
  match (s.routes.find? (·.1 == url)).map (·.2) with
  | none => s.setUrl url
  | some markup =>
    { s with document :=
      { dom := .ofMarkup markup, generation := s.document.generation + 1, url } }

/-! ## Requests -/

def navigate (s : Sandbox L) (url : String) : Except Page.Error (Sandbox L) :=
  let target := Url.resolve s.document.url url
  if (Url.parse? target).isSome then .ok (s.load target) else .error (.navigationFailed url)

/-- Set a property. Some stand for attributes and one for the content. -/
def setProperty (s : Sandbox L) (el : Handle) (name : String) (value : Page.PropertyValue) :
    Except Page.Error (Sandbox L) :=
  match name with
  | "disabled" | "hidden" | "required" =>
    if value.isTruthy then s.setAttribute el name "" else s.removeAttribute el name
  | "id" | "title" | "name" | "placeholder" | "alt" => s.setAttribute el name value.toText
  | "className" => s.setAttribute el "class" value.toText
  | "textContent" => s.setText el value.toText
  | _ => do
    let n ← s.document.resolve el
    return s.modifyDom fun d => Document.putProperty d n name value

/-- Where an event goes: to its target, and if it bubbles on to the ancestors and the document. -/
def pathOf (s : Sandbox L) (target : EventTarget) (bubbles : Bool) :
    Except Page.Error (List EventTarget) :=
  match target with
  | .document => return [.document]
  | .element el => do
    let n ← s.document.resolve el
    let above := if bubbles then s.dom.ancestors n else []
    return target :: above.map fun a => if a = Dom.root then .document else .element (s.handle a)

section Serve

variable {m : Type → Type} [Monad m]

abbrev Acting (L : Type) (m : Type → Type) (α : Type) : Type := StateT (Sandbox L) m α

/-- What a reaction does with the target and the event. -/
abbrev React (L : Type) (m : Type → Type) : Type := L → EventTarget → Event → Acting L m Unit

def reading (f : Sandbox L → Except Page.Error α) : Acting L m (Except Page.Error α) :=
  return f (← get)

/-- Change the sandbox unless the change fails. -/
def changing (f : Sandbox L → Except Page.Error (Sandbox L)) :
    Acting L m (Except Page.Error Unit) := do
  match f (← get) with
  | .ok s =>
    set s
    return .ok ()
  | .error e => return .error e

/-- Read from the node that a handle names. -/
def readingNode (el : Handle) (f : Document → NodeId → α) : Acting L m (Except Page.Error α) :=
  reading fun s => return f s.document (← s.document.resolve el)

/-- Let the listeners react at each place on the way, then do what a click does by itself. -/
def dispatch (react : React L m) (target : EventTarget) (event : Event) :
    Acting L m (Except Page.Error Unit) := do
  let s ← get
  match s.pathOf target event.bubbles with
  | .error e => return .error e
  | .ok path =>
    let clicked : Option NodeId :=
      match target with
      | .element el => if event.kind = .click then (s.document.resolve el).toOption else none
      | .document => none
    modify fun s => { s with dispatched := (target, event) :: s.dispatched }
    for place in path do
      let here := (← get).listeners.filter fun l => l.target = place && l.kind = event.kind
      for l in here do react l.reaction target event
    if let some n := clicked then modify fun s => { s with document := s.document.activate n }
    return .ok ()

/-- The element that had the focus loses it. -/
def focus (react : React L m) (el : Handle) : Acting L m (Except Page.Error Unit) := do
  let s ← get
  match s.document.resolve el with
  | .error e => return .error e
  | .ok n =>
    set { s with document := { s.document with focused := some n } }
    let lost ←
      match s.document.focused.filter (· != n) with
      | some p => dispatch react (.element (s.handle p)) (.plain .blur false)
      | none => pure (.ok ())
    match lost with
    | .error e => return .error e
    | .ok () => dispatch react (.element el) (.plain .focus false)

/-- An element without the focus cannot lose it. -/
def blur (react : React L m) (el : Handle) : Acting L m (Except Page.Error Unit) := do
  let s ← get
  match s.document.resolve el with
  | .error e => return .error e
  | .ok n =>
    if s.document.focused = some n then
      set { s with document := { s.document with focused := none } }
      dispatch react (.element el) (.plain .blur false)
    else return .ok ()

/-- Answer a request. -/
def serve (react : React L m) : (r : Page.Request) → Acting L m (Page.signature.Answer r)
  | .xpath expression context => reading fun s => do
    let context ← context.mapM s.document.resolve
    return s.handles (← XPath.select s.dom expression context)
  | .first selector => reading fun s => return (← s.select selector).head?
  | .all selector => reading fun s => s.select selector
  | .byId id => reading fun s => .ok ((s.dom.byId id).map s.handle)
  | .tag el => readingNode el fun doc n => (doc.dom.tag? n).getD ""
  | .text el => readingNode el fun doc n => doc.dom.textContent n
  | .innerText el => readingNode el fun doc n => doc.dom.innerText n
  | .attribute el name =>
    readingNode el fun doc n => doc.dom.attribute? n (Text.asciiLowered name)
  | .property el name => readingNode el fun doc n => doc.property? n name
  | .setProperty el name value => changing fun s => s.setProperty el name value
  | .visibility el => readingNode el fun doc n => doc.dom.computed n
  | .isConnected el => readingNode el fun doc n => doc.dom.isConnected n
  | .dispatch target event => dispatch react target event
  | .focus el => focus react el
  | .blur el => blur react el
  | .title => reading fun s => .ok s.document.titleText
  | .url => reading fun s => .ok s.document.url
  | .navigate url => changing fun s => s.navigate url

/-- Run a program on the sandbox. -/
def perform (react : React L m) (p : Prog Page.signature α) : Acting L m α :=
  p.run (serve react)

end Serve

/-! ## The feed of changes -/

/-- How many changes the feed holds for a slow reader. -/
def feedCapacity : Nat := 1024

/-- How many changes a reader who has read so many has lost. -/
def lost (s : Sandbox L) (position : Nat) : Nat := s.changes.size - feedCapacity - position

/-- The changes after so many, as far as the feed still holds them, and how many it lost. -/
def changesSince (s : Sandbox L) (position : Nat) : Nat × List Change :=
  let lost := s.lost position
  (lost, (s.changes.extract (position + lost) s.changes.size).toList)

end Sandbox

end BrowserScript
