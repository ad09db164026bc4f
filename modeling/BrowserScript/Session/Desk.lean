import BrowserScript.Run.Basic
import BrowserScript.Session.Usability
import BrowserScript.Verification.Board
import BrowserScript.Verification.Watch

/-!
What a session keeps: the board of statements, the watches, the usability test under way, and
what its followers were told.
-/

namespace BrowserScript.Session

open Usability (Test)

structure Desk where
  board : Board := {}
  roster : Watch.Roster := {}
  test : Option Test := none
  /-- The events so far, the latest first. -/
  told : List Run.Event := []

namespace Desk

inductive Request
  | tell (e : Run.Event)
  | claim (c : Command)
  | settle (key : String) (found : Verification.Outcome)
  | activate (key : String) (probe : Probe) (watch : Nat)
  | stopWatches
  | outstanding
  | forgetStatements
  | forgetResults
  | results
  | status (c : Command)
  | running
  | test
  | beginTest (t : Test)
  | endTest

def Request.Result : Request → Type
  | .tell _ | .stopWatches | .forgetStatements | .forgetResults => Unit
  | .claim _ => Option String
  | .settle .. | .activate .. => Bool
  | .outstanding => List (String × Option Probe)
  | .results => List Run.Verdict
  | .status _ => Option Board.Status
  | .running => Nat
  | .test | .endTest => Option Test
  | .beginTest _ => Except String Unit

def signature : Signature := ⟨Request, Request.Result⟩

instance : Signature.Within Run.followers signature :=
  ⟨fun e => Prog.request (S := signature) (.tell e)⟩

def tell (e : Run.Event) (d : Desk) : Desk := { d with told := e :: d.told }

/-- Settle a statement and tell the verdict. Whether there was one. -/
def settle (key : String) (found : Verification.Outcome) (d : Desk) : Bool × Desk :=
  match d.board.settle key found with
  | (some v, board) => (true, { d with board }.tell (.verdict v))
  | (none, _) => (false, d)

/-- Stop the watches of all statements. -/
def stopWatches (d : Desk) : Desk :=
  { d with roster := d.roster.stop d.board.watches, board := { d.board with watches := [] } }

/-- How many watches of statements have not ended. -/
def running (d : Desk) : Nat := d.board.watches.countP fun w => !d.roster.hasEnded w

def serve : (r : Request) → Desk → r.Result × Desk
  | .tell e, d => ((), d.tell e)
  | .claim c, d =>
    let (key, board) := d.board.claim c
    (key, { d with board })
  | .settle key found, d => d.settle key found
  | .activate key probe watch, d =>
    let (active, board) := d.board.activate key probe watch
    (active, { d with board })
  | .stopWatches, d => ((), d.stopWatches)
  | .outstanding, d => (d.board.outstanding, d)
  | .forgetStatements, d => ((), { d with board := { d.board with entries := [] } })
  | .forgetResults, d => ((), { d with board := { d.board with results := [] } })
  | .results, d => (d.board.results, d)
  | .status c, d => (d.board.status? c, d)
  | .running, d => (d.running, d)
  | .test, d => (d.test, d)
  | .beginTest t, d =>
    match d.test with
    | some active => (.error active.id, d)
    | none => (.ok (), { d with test := some t })
  | .endTest, d => (d.test, { d with test := none })

end Desk

end BrowserScript.Session
