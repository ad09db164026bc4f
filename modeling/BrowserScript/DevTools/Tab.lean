import BrowserScript.DevTools.Basic
import BrowserScript.DevTools.Message

/-!
Sessions with one page of the browser.
-/

namespace BrowserScript.DevTools

/-- A page and the session that is attached to it. -/
structure Tab where
  target : String
  session : String
deriving DecidableEq, Repr

namespace Tab

def call (t : Tab) (method : String) (params : Option Json) : Access Json :=
  DevTools.call ⟨method, params, some t.session⟩

def enable (t : Tab) : Access Unit := do
  discard (t.call "Page.enable" none)
  discard (t.call "Runtime.enable" none)

/-- The value of an expression; `undefined` is null. -/
def evaluate (t : Tab) (expression : String) : Access Json := do
  let answer ← t.call "Runtime.evaluate" (some (.object [("awaitPromise", .bool true),
    ("expression", .string expression), ("returnByValue", .bool true)]))
  match answer.field? "exceptionDetails" with
  | some details => throw (.script ((exceptionMessage? details).getD ""))
  | none => return (answer.field "result").field "value"

/-- How long a page may load, and how far the looks at it are apart, in milliseconds. -/
def loadDeadline : Nat := 30000

def loadPoll : Nat := 100

def readyState (t : Tab) : Prog surroundings Bool := do
  match ← (t.evaluate "document.readyState").run with
  | .ok (.string state) => return state == "complete" || state == "interactive"
  | _ => return false

/-- Look at most so many times whether the document can be used. -/
def waitUntil (t : Tab) (deadline : Nat) : Nat → Access Unit
  | 0 => throw (.timeout "Page load timeout")
  | looks + 1 => do
    if ← t.readyState then return
    if deadline ≤ (← currentTime) then throw (.timeout "Page load timeout")
    sleep loadPoll
    waitUntil t deadline looks

/-- Wait until the document can be used. An error counts as not yet, because a page has no
context for a moment while it changes. Each look but the last is followed by a pause, so the
deadline passes before the looks are used up. -/
def waitForLoad (t : Tab) : Access Unit := do
  t.waitUntil ((← currentTime) + loadDeadline) (loadDeadline / loadPoll + 2)

def navigate (t : Tab) (url : String) : Access Unit := do
  let answer ← t.call "Page.navigate" (some (.object [("url", .string url)]))
  if let some (.string text) := answer.field? "errorText" then
    throw (.navigationFailed (url ++ ": " ++ text))
  t.waitForLoad

end Tab

end BrowserScript.DevTools
