import BrowserScript.Verification.Reading

/-!
Conditions that are looked at again and again: what one look finds, which changes of the document
call for another, and what is said when time runs out.
-/

namespace BrowserScript

open Page (Handle Access)

inductive Probe
  | text (el : Handle) (operator : Operator) (expected : String)
  | attribute (el : Handle) (subject : Subject) (operator : Operator) (expected locator : String)
  /-- No element stands for one that was absent when the probe was made. -/
  | state (el : Option Handle) (state : ElementState)
  | page (target : PageText) (operator : Operator) (expected : String)
deriving DecidableEq, Repr

/-- What one look found. -/
inductive Observation
  | satisfied (found : Verification.Outcome)
  | unmet (found : Verification.Outcome)
  /-- The condition can no longer come true. -/
  | gone (found : Verification.Outcome)
deriving DecidableEq, Repr, Inhabited

namespace Observation

def ofOutcome (o : Verification.Outcome) : Observation :=
  if o.success then .satisfied o else .unmet o

def outcome : Observation → Verification.Outcome
  | .satisfied o | .unmet o | .gone o => o

end Observation

namespace Probe

open Verification

inductive Category
  | text | attribute | state | page
deriving DecidableEq, Repr

def category : Probe → Category
  | .text .. => .text
  | .attribute .. => .attribute
  | .state .. => .state
  | .page .. => .page

/-- Whether the value can change without a change of the document. -/
def polls : Probe → Bool
  | .page .. => true
  | .attribute _ subject .. => subject = .value || subject = .checked || subject = .selected
  | _ => false

/-- Attributes that decide on states. -/
def stateAttributes : List String := ["style", "class", "disabled", "checked", "hidden"]

/-- Whether a change may have changed what the probe finds. -/
def wants (p : Probe) (change : Page.Change) : Bool :=
  match p, change.kind with
  | .text .., _ => true
  | .attribute .., .childList | .state .., .childList => true
  | .attribute el subject .., .attributes =>
    change.target = el && change.attributeName == some subject.word
  | .state .., .attributes => change.attributeName.any stateAttributes.contains
  | _, _ => false

/-- Compare and put the result into words. -/
def judge (subject : String) (op : Operator) (expected actual : String) : Outcome :=
  let claim := subject ++ " " ++ op.phrase ++ " " ++ quoted expected
  let found : Outcome :=
    match op.holds? actual expected with
    | none => .fail ("Unknown operator: " ++ op.word)
    | some true => .pass (claim ++ " verified")
    | some false => .fail (claim ++ " verification failed. Actual value: " ++ quoted actual)
  found.withActual actual

def boxText (v : Page.Visibility) : String :=
  Decimal.plain v.width ++ "×" ++ Decimal.plain v.height

def hiddenReason (v : Page.Visibility) : String :=
  if v.display == "none" then "display is 'none'"
  else if v.visibility == "hidden" then "visibility is 'hidden'"
  else "element has no size (" ++ boxText v ++ ")"

/-- Why an element is not in a state. -/
def stateObstacle (state : ElementState) (el : Handle) : Access (Option String) :=
  match state with
  | .visible => do
    let v ← Page.visibility el
    return if v.isRendered then none else some (hiddenReason v)
  | .hidden => do
    let v ← Page.visibility el
    return if v.isRendered then some ("element is visible (" ++ boxText v ++ ")") else none
  | .enabled =>
    return if ← isTruthy el "disabled" then some "element has 'disabled' attribute" else none
  | .disabled =>
    return if ← isTrue el "disabled" then none else some "element doesn't have 'disabled' attribute"
  | .checked => return if ← isTrue el "checked" then none else some "element is not checked"

def lookState (state : ElementState) (el : Handle) : Access Outcome := do
  match ← stateObstacle state el with
  | none => return .pass ("State verification passed: element is " ++ state.word)
  | some reason =>
    return .fail ("State verification failed: element is not " ++ state.word
      ++ " (" ++ reason ++ ")")

/-- Whether an element is part of the document and rendered. -/
def isShown (el : Handle) : Access Bool := do
  if ← Page.isAttached el then return (← Page.visibility el).isRendered else return false

/-- One look. While watching, a text counts only when its element is shown. -/
def lookAccess (p : Probe) (watching : Bool) : Access Observation := do
  match p with
  | .text el op expected =>
    let shown ← if watching then isShown el else pure true
    if shown then return .ofOutcome (judge "Text" op expected (← shownText el))
    else
      return .unmet (.fail ("Text " ++ op.phrase ++ " " ++ quoted expected ++ " is not displayed"))
  | .attribute el subject op expected locator =>
    if ← Page.isAttached el then
      return .ofOutcome (judge subject.word op expected (← attributeValue el subject))
    else
      return .gone
        (.fail ("Element removed from DOM during attribute verification: " ++ locator))
  | .state el wanted =>
    match ← attached el with
    | some el => return .ofOutcome (← lookState wanted el)
    | none =>
      return if wanted = .hidden then .satisfied hiddenBecauseAbsent
        else .unmet (.fail ("State verification failed: element is not " ++ wanted.word
          ++ " (not in DOM)"))
  | .page target op expected =>
    return .ofOutcome (judge ("Page " ++ target.word) op expected (← pageText target))

/-- One look; a page error is a condition not met. -/
def look (p : Probe) (watching : Bool) : Prog Page.signature Observation :=
  (p.lookAccess watching).result.bind fun
    | .ok found => .done found
    | .error e => .done (.unmet (.fail e.message))

/-- What is reported when time runs out, after the last look. -/
def expired (p : Probe) (last : Outcome) (milliseconds : Nat) : Outcome :=
  let after := " timed out after " ++ toString (milliseconds / 1000) ++ " seconds"
  match p with
  | .page target op expected =>
    let actual := last.actual.getD ""
    (Outcome.fail ("Page " ++ target.word ++ " verification" ++ after ++ ". Expected " ++ op.word
      ++ " " ++ quoted expected ++ " but got " ++ quoted actual)).withActual actual
  | _ => { Outcome.fail ("Verification" ++ after) with actual := last.actual }

end Probe

end BrowserScript
