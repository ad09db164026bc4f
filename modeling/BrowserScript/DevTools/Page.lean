import BrowserScript.DevTools.Script
import BrowserScript.DevTools.Tab
import BrowserScript.Page.Document
import BrowserScript.Page.Request

/-!
A page in a browser: every request is a script that runs in it. It has no feed of changes.
-/

namespace BrowserScript.DevTools

open Page (Handle EventTarget Event)

/-- A program on a page in a browser. -/
abbrev PageAccess (α : Type) : Type := ExceptT Page.Error (Prog surroundings) α

def ofTab (a : Access α) : PageAccess α := ExceptT.mk do
  match ← a.run with
  | .ok x => return .ok x
  | .error e => return .error e.toPage

/-- The reply of a page script was not of the kind that was asked for. -/
def unexpected : Page.Error := .backend "unexpected kind of reply"

def decoded (decode : Json → Option α) (j : Json) : PageAccess α :=
  match decode j with
  | some a => return a
  | none => throw unexpected

def invalid (what : String) (j : Json) : Page.Error :=
  .backend (Error.invalidResponse ("expected " ++ what ++ ", got " ++ j.canonical.compact)).message

def handleOf : Json → PageAccess (Option Handle)
  | .null => return none
  | j =>
    match Json.asWord j with
    | some id => return some ⟨id⟩
    | none => throw (invalid "element handle" j)

def handlesOf (j : Json) : PageAccess (List Handle) :=
  return (← decoded (Json.asList Json.asWord) j).map (⟨·⟩)

def propertyOf : Json → PageAccess (Option Page.PropertyValue)
  | .null => return none
  | j =>
    match Page.PropertyValue.ofJson? j with
    | some v => return some v
    | none => throw (invalid "property value" j)

def targetJson : EventTarget → Json
  | .element el => .ofNat el.id
  | .document => .null

namespace Tab

def run (t : Tab) (body : String) (arguments : Json.Fields) : PageAccess Json :=
  ofTab (t.evaluate (Script.invoke body (.object arguments)))

/-- Run a script on an element. -/
def runOn (t : Tab) (body : String) (el : Handle) (arguments : Json.Fields) : PageAccess Json :=
  t.run body (("el", .ofNat el.id) :: arguments)

def textOf (t : Tab) (expression : String) : PageAccess String :=
  return ((← ofTab (t.evaluate expression)).string?).getD ""

def isConnected (t : Tab) (el : Handle) : PageAccess Bool :=
  tryCatch (do decoded Json.asBool (← t.runOn Script.isConnected el [])) fun
    | .staleElement _ => return false
    | e => throw e

def serve (t : Tab) : (r : Page.Request) → PageAccess r.Result
  | .xpath expression context => do
    let context := Json.ofOption (fun (el : Handle) => .ofNat el.id) context
    handlesOf (← t.run Script.xpath [("expr", .string expression), ("ctx", context)])
  | .first selector => do handleOf (← t.run Script.first [("sel", .string selector)])
  | .all selector => do handlesOf (← t.run Script.all [("sel", .string selector)])
  | .byId id => do handleOf (← t.run Script.byId [("id", .string id)])
  | .tag el => do decoded Json.asString (← t.runOn Script.tag el [])
  | .text el => do decoded Json.asString (← t.runOn Script.text el [])
  | .innerText el => do decoded Json.asString (← t.runOn Script.innerText el [])
  | .attribute el name => do
    decoded (Json.orNull Json.asString) (← t.runOn Script.attributeOf el [("name", .string name)])
  | .property el name => do
    propertyOf (← t.runOn Script.property el [("name", .string name)])
  | .setProperty el name value =>
    discard (t.runOn Script.setProperty el [("name", .string name), ("value", value.toJson)])
  | .visibility el => do
    decoded Page.Visibility.ofJson? (← t.runOn Script.visibility el [])
  | .isConnected el => t.isConnected el
  | .dispatch target event =>
    discard (t.run Script.dispatch [("el", targetJson target), ("event", event.toJson),
      ("interface", .string event.kind.interface)])
  | .focus el => discard (t.runOn Script.focus el [])
  | .blur el => discard (t.runOn Script.blur el [])
  | .title => t.textOf "document.title"
  | .url => t.textOf "window.location.href"
  | .navigate url => ofTab (t.navigate url)

def answer (t : Tab) : (r : Page.timed.Request) → Prog surroundings (Page.timed.Answer r)
  | .inl r => (t.serve r).run
  | .inr r => (Prog.request (S := clock) r).within

/-- Run a program over a page and a clock on the page of a tab. -/
def perform (t : Tab) (p : Prog Page.timed α) : Prog surroundings α := p.run t.answer

end Tab

end BrowserScript.DevTools
