import BrowserScript.Command.Action
import BrowserScript.Run.Event
import BrowserScript.Verification.Probe

/-!
The board of watched verify statements: how far each has come, which watches belong to them, and
what is known about each source so far. A statement is settled once.
-/

namespace BrowserScript

open Verification (Outcome)

namespace Board

inductive Status
  | pending | active | complete | failed
deriving DecidableEq, Repr

def Status.word : Status → String
  | .pending => "pending"
  | .active => "active"
  | .complete => "complete"
  | .failed => "failed"

def Status.isFinal : Status → Bool
  | .complete | .failed => true
  | .pending | .active => false

/-- A statement on the board. -/
structure Entry where
  source : String
  status : Status := .pending
  /-- What is watched. -/
  probe : Option Probe := none

end Board

structure Board where
  /-- The statements by key. -/
  entries : List (String × Board.Entry) := []
  /-- The watches started for statements and not stopped. -/
  watches : List Nat := []
  /-- What is known about each source. -/
  results : List Run.Verdict := []

namespace Board

def incompleteMessage : String :=
  "Verification incomplete: test ended before verification completed"

/-- A statement is known by its kind and source. -/
def key? (c : Command) : Option String :=
  if c.src == "" then none else c.verifyType.map fun t => t.word ++ ":" ++ c.src

def entry? (b : Board) (key : String) : Option Entry :=
  (b.entries.find? (·.1 == key)).map (·.2)

def setEntry (b : Board) (key : String) (e : Entry) : Board :=
  { b with entries := b.entries.map fun (k, old) => (k, if k = key then e else old) }

/-- Put a statement on the board, unless it is there. -/
def claim (b : Board) (c : Command) : Option String × Board :=
  match key? c with
  | none => (none, b)
  | some key =>
    if (b.entry? key).isSome then (none, b)
    else (some key, { b with entries := b.entries ++ [(key, { source := c.src })] })

/-- Replace what is known about a source. A success stays. -/
def recordIn (v : Run.Verdict) : List Run.Verdict → List Run.Verdict
  | [] => [v]
  | old :: rest =>
    if old.source = v.source then (if old.success && !v.success then old else v) :: rest
    else old :: recordIn v rest

/-- Bring a statement to its end, with the verdict to report, unless it has come there. -/
def settle (b : Board) (key : String) (found : Outcome) : Option Run.Verdict × Board :=
  match b.entry? key with
  | none => (none, b)
  | some e =>
    if e.status.isFinal then (none, b)
    else
      let verdict := ⟨e.source, found.success, found.message⟩
      let b := b.setEntry key { e with status := if found.success then .complete else .failed }
      (some verdict, { b with results := recordIn verdict b.results })

/-- Let a statement be watched that was set up and not settled or forgotten meanwhile. -/
def activate (b : Board) (key : String) (probe : Probe) (watch : Nat) : Bool × Board :=
  match b.entry? key with
  | some e =>
    if e.status = .pending then
      let b := b.setEntry key { e with status := .active, probe := some probe }
      (true, { b with watches := b.watches ++ [watch] })
    else (false, b)
  | none => (false, b)

/-- The statements that are not settled, by key. -/
def outstanding (b : Board) : List (String × Option Probe) :=
  ((b.entries.filter fun (_, e) => !e.status.isFinal).map fun (k, e) => (k, e.probe)).mergeSort
    fun x y => x.1 ≤ y.1

def status? (b : Board) (c : Command) : Option Status :=
  (key? c).bind fun key => (b.entry? key).map (·.status)

/-- What passive checks need beyond what a command needs. -/
def needsLocator : Verification → Bool
  | .text .. => true
  | .attribute subject .. => subject = .value || subject = .placeholder
  | .state s _ => s ≠ .hidden
  | .page .. => false

def invalidMessage : String := "Invalid verification data"

/-- The verification of a command that can be watched, or what to say about one that cannot. -/
def watchable (c : Command) : Except String Verification :=
  match c.verification with
  | .error (.unknownOperator op) => .error (Command.Error.unknownOperator op).message
  | .error _ => .error invalidMessage
  | .ok v =>
    if needsLocator v && (v.locator.getD "") == "" then .error invalidMessage else .ok v

end Board

end BrowserScript
