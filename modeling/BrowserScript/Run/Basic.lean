import BrowserScript.Command.Action
import BrowserScript.Page.Request
import BrowserScript.Run.Event
import BrowserScript.Store.Basic

/-!
How steps and runs end, and what a run can ask: the page, the time, the state, and those who
follow it.
-/

namespace BrowserScript.Run

/-- Why a step could not be done. -/
inductive Failure
  | elementNotFound (locator : String)
  | command (e : Command.Error)
  | unsupported (verb : String)
  | page (e : Page.Error)
deriving DecidableEq, Repr

/-- The kind of a failure, for programs. -/
def Failure.kind : Failure → String
  | .elementNotFound _ => "ElementNotFound"
  | .command e => e.kind
  | .unsupported _ => "Unsupported"
  | .page _ => "Page"

def Failure.message : Failure → String
  | .elementNotFound locator => "Element not found for XPath: " ++ locator
  | .command e => e.message
  | .unsupported verb => "Unsupported command: " ++ verb
  | .page e => e.message

inductive Outcome
  | completed
  /-- The stop flag was seen before this step ended. -/
  | stopped (at_ : Nat)
  | aborted (at_ : Nat) (failure : Failure)
deriving DecidableEq, Repr

/-- The fields of a document; the way in which a failure is shown is given. -/
def Outcome.toFields (failure : Failure → Json) : Outcome → Json.Fields
  | .completed => [("outcome", .string "completed")]
  | .stopped i => [("outcome", .string "stopped"), ("at", .ofNat i)]
  | .aborted i f =>
    [("outcome", .string "aborted"), ("at", .ofNat i), ("failure", failure f)]

/-- How a step ended, after its own log entries. -/
inductive StepResult
  | done
  | skipped
  | failed (f : Failure)
  | stopped
deriving DecidableEq, Repr

/-- Those who follow a run are told events. -/
def followers : Signature := ⟨Event, fun _ => Unit⟩

abbrev surroundings : Signature := Page.timed.sum (Store.signature.sum followers)

/-- A program of a run, which ends with the first error of the state. -/
abbrev Access (α : Type) : Type := ExceptT Store.Error (Prog surroundings) α

def tell (e : Event) : Prog surroundings Unit := (Prog.request (S := followers) e).within

def pause (milliseconds : Nat) : Prog surroundings Unit := (sleep milliseconds).within

def onPage (p : Prog Page.signature α) : Prog surroundings α := p.within

end BrowserScript.Run
