import BrowserScript.Dom.Markup
import BrowserScript.Dom.Style
import BrowserScript.Url.Basic

/-!
A loaded document: its nodes, address, title and focus, and the handles that name its elements. A
handle holds the generation of its document, so that it goes stale when another one is loaded.
-/

namespace BrowserScript.Sandbox

open Dom (NodeId)
open Page (Handle PropertyValue)

structure Document where
  dom : Dom := .empty
  /-- How many documents were loaded before. -/
  generation : Nat := 0
  url : String
  title : Option String := none
  focused : Option NodeId := none

namespace Document

def handle (doc : Document) (n : NodeId) : Handle := ⟨doc.generation <<< 32 + n⟩

/-- The node a handle names: the document itself or an element, attached or not. -/
def resolve (doc : Document) (el : Handle) : Except Page.Error NodeId :=
  let n := el.id % (1 <<< 32)
  if el.id >>> 32 = doc.generation ∧ n < doc.dom.size ∧ (n = Dom.root ∨ doc.dom.isElement n)
  then .ok n
  else .error (.staleElement el.id)

def modifyDom (doc : Document) (f : Dom → Dom) : Document := { doc with dom := f doc.dom }

/-- The title that was set, else the text of the first title element. -/
def titleText (doc : Document) : String :=
  match doc.title with
  | some title => title
  | none =>
    ((doc.dom.firstByTag "title").map fun n => Text.collapse (doc.dom.textContent n)).getD ""

/-! ## Properties -/

/-- The option a selection list shows: the first selected one, and the first of all as long as no
option was selected or deselected by its property. -/
def shownOption (d : Dom) (list : NodeId) : Option NodeId :=
  let options := d.options list
  match options.find? d.isOptionSelected with
  | some o => some o
  | none => if options.any fun o => (d.property? o "selected").isSome then none else options.head?

def formTags : List String :=
  ["input", "button", "select", "textarea", "option", "optgroup", "fieldset"]

def requirableTags : List String := ["input", "select", "textarea"]

def namedTags : List String :=
  ["input", "select", "textarea", "button", "form", "iframe", "img", "a", "meta", "fieldset",
    "output"]

def linkTags : List String := ["a", "link", "area"]

def sourceTags : List String := ["img", "script", "iframe", "input", "video", "audio", "source"]

/-- The property of an element: one that follows the markup, or one that was set. -/
def property? (doc : Document) (n : NodeId) (name : String) : Option PropertyValue := do
  let d := doc.dom
  let tag ← d.tag? n
  let own := d.property? n name
  let written (name : String) : PropertyValue := .text ((d.attribute? n name).getD "")
  let flag (name : String) : PropertyValue := .bool (d.hasAttribute n name)
  let link (name : String) : PropertyValue :=
    .text (((d.attribute? n name).map (Url.resolve doc.url)).getD "")
  let only (tags : List String) (value : PropertyValue) : Option PropertyValue :=
    if tags.contains tag then some value else own
  match name with
  | "value" =>
    match tag with
    | "input" | "button" => own <|> some (written name)
    | "textarea" => own <|> some (.text (d.textContent n))
    | "select" => some (.text (((shownOption d n).map d.optionValue).getD ""))
    | "option" => some (.text (d.optionValue n))
    | _ => own
  | "checked" => if tag == "input" then own <|> some (flag name) else own
  | "selected" => only ["option"] (.bool (d.isOptionSelected n))
  | "disabled" => only formTags (flag name)
  | "required" => only requirableTags (flag name)
  | "hidden" => some (flag name)
  | "id" | "title" => some (written name)
  | "className" => some (written "class")
  | "name" => only namedTags (written name)
  | "placeholder" => only ["input", "textarea"] (written name)
  | "alt" => only ["img", "input", "area"] (written name)
  | "type" => only ["input"] (.text (Text.asciiLowered ((d.attribute? n name).getD "text")))
  | "href" => only linkTags (link name)
  | "src" => only sourceTags (link name)
  | "tagName" => some (.text (Text.asciiUppered tag))
  | "textContent" => some (.text (d.textContent n))
  | "innerText" => some (.text (d.innerText n))
  | _ => own

/-- Set the value of a selection list: the first option with that value is selected and all others
are not. -/
def chooseOption (d : Dom) (list : NodeId) (value : String) : Dom :=
  let options := d.options list
  let chosen := options.find? fun o => d.optionValue o == value
  options.foldl (fun d o => d.setProperty o "selected" (.bool (some o == chosen))) d

/-- Set a property that does not stand for an attribute or the content. -/
def putProperty (d : Dom) (n : NodeId) (name : String) (value : PropertyValue) : Dom :=
  if name == "value" && d.tag? n == some "select" then chooseOption d n value.toText
  else d.setProperty n name value

/-! ## What a click does by itself -/

/-- The inputs of a name. -/
def inputsNamed (d : Dom) (name : String) : List NodeId :=
  (d.descendantElements Dom.root).filter fun n =>
    d.tag? n == some "input" && d.attribute? n "name" == some name

/-- Check a radio button and uncheck the others of its name. -/
def checkRadio (d : Dom) (n : NodeId) : Dom :=
  let others := ((d.attribute? n "name").map (inputsNamed d)).getD []
  (others.foldl (fun d o => d.setProperty o "checked" (.bool false)) d).setProperty n "checked"
    (.bool true)

/-- Boxes change their mark, radio buttons are checked, and links lead to their address. -/
def activate (doc : Document) (n : NodeId) : Document :=
  match doc.dom.tag? n with
  | some "input" =>
    match Text.asciiLowered ((doc.dom.attribute? n "type").getD "text") with
    | "checkbox" =>
      let checked := (doc.property? n "checked").any PropertyValue.isTruthy
      doc.modifyDom fun d => d.setProperty n "checked" (.bool !checked)
    | "radio" => doc.modifyDom fun d => checkRadio d n
    | _ => doc
  | some "a" =>
    match doc.property? n "href" with
    | some (.text href) => if href == "" then doc else { doc with url := href }
    | _ => doc
  | _ => doc

end Document

end BrowserScript.Sandbox
