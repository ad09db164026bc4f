import BrowserScript.Session.Basic

/-!
Watching the verify statements of a script: each is set up once, looked at, and watched if it does
not hold yet. When a test ends each gets a last look, and what is still open is incomplete.
-/

namespace BrowserScript.Session

open Page (Handle)
open Verification (Outcome)

def settle (key : String) (found : Outcome) : Program Bool := ask (.settle key found)

/-- Start a watch. -/
def watch (probe : Probe) (terms : Watch.Terms) (purpose : Watch.Purpose) : Program Nat := do
  let (id, position) ← (Watch.ask .enrol : Program (Nat × Option Nat))
  let now ← currentTime
  Tasks.start (Job.watch (.begin id now position probe terms purpose))
  return id

def stopWatch (watch : Nat) : Program Unit := Watch.ask (.stop watch)

/-- Wait until a watch has ended. -/
def joinWatch (watch : Nat) : Program Unit := Watch.ask (.join watch)

def termsFor (s : Settings) (probe : Probe) : Watch.Terms :=
  match probe.category with
  | .page => ⟨s.watching.pageDeadline, s.watching.poll⟩
  | _ => ⟨s.watching.deadline, s.watching.poll⟩

/-- Watch a statement, unless it was settled or forgotten while its element was looked for. -/
def watchStatement (s : Settings) (key : String) (probe : Probe) : Program Unit := do
  let (id, position) ← (Watch.ask .enrol : Program (Nat × Option Nat))
  let active : Bool ← ask (.activate key probe id)
  if active then
    let now ← currentTime
    Tasks.start (Job.watch (.begin id now position probe (termsFor s probe) (.statement key)))

def find (s : Settings) (locator : String) : Program (Option Handle) :=
  (Locator.find s.patience locator).within

/-- The element that a probe needs. -/
def needed (s : Settings) (locator : String) (probe : Handle → Probe) :
    Program (Except Outcome Probe) := do
  match ← find s locator with
  | some el => return .ok (probe el)
  | none => return .error (.fail ("Element not found for verification: " ++ locator))

/-- The probe for a verification, or why there is none. -/
def probeFor (s : Settings) : Verification → Program (Except Outcome Probe)
  | .page target op expected => return .ok (.page target op expected)
  | .state .hidden none => return .ok (.state none .hidden)
  | .state .hidden (some locator) => return .ok (.state (← find s locator) .hidden)
  | .state state locator => needed s (locator.getD "") fun el => .state (some el) state
  | .text op expected locator => needed s (locator.getD "") fun el => .text el op expected
  | .attribute subject op expected (some locator) =>
    needed s locator fun el => .attribute el subject op expected locator
  | .attribute _ _ _ none =>
    return .error (.fail "Invalid attribute verification data: missing required properties")

/-- Set up a statement that was claimed: look at it once, and watch it if it does not hold. -/
def setUp (s : Settings) (key : String) (c : Command) : Program Unit := do
  match Board.watchable c with
  | .error message => discard (settle key (.fail message))
  | .ok v =>
    match ← probeFor s v with
    | .error failure => discard (settle key failure)
    | .ok probe =>
      match ← onPage (probe.look false) with
      | .satisfied found | .gone found => discard (settle key found)
      | .unmet _ => watchStatement s key probe

/-- Claim the statements among some commands. -/
def claimAll : List Command → Program (List Job)
  | [] => return []
  | c :: rest => do
    let claimed : Option String ← ask (.claim c)
    let others ← claimAll rest
    match claimed with
    | some key => return .setup key c :: others
    | none => return others

/-- Set up all verify statements of a tree that are not there, at the same time. -/
def install (tree : List Block) : Program Unit := do
  Tasks.gather (← claimAll ((Block.preorderAll tree).filter (·.isVerify)))

def cleanup : Program Unit := do
  ask .stopWatches
  ask .forgetStatements

/-- Last looks at the statements that are still open. How many were incomplete. -/
def flushAll : List (String × Option Probe) → Program Nat
  | [] => return 0
  | (key, probe) :: rest => do
    let last : Option Observation ← match probe with
      | some p => some <$> onPage (p.look true)
      | none => pure none
    match last with
    | some (.satisfied found) =>
      discard (settle key found)
      flushAll rest
    | _ =>
      let incomplete ← settle key (.fail Board.incompleteMessage)
      let others ← flushAll rest
      return (if incomplete then 1 else 0) + others

/-- End all watching. How many statements were incomplete. -/
def flush : Program Nat := do
  ask .stopWatches
  let open_ : List (String × Option Probe) ← ask .outstanding
  let incomplete ← flushAll open_
  cleanup
  return incomplete

def statuses : List Command → Program (List (Option Board.Status))
  | [] => return []
  | c :: rest => return (← ask (.status c)) :: (← statuses rest)

/-! ## Usability tests -/

/-- Begin to watch the statements of a task. Its identity, the fresh one where it has none. -/
def startTest (s : Settings) (task : Usability.Task) (fresh : String) : Access String := do
  let tree ← parse s task.script
  let id := task.id.getD fresh
  let begun : Except String Unit ← ask (.beginTest (.ofTask task id tree))
  match begun with
  | .error running => throw (.testRunning running)
  | .ok () =>
    (ask .forgetResults : Program Unit)
    install tree
    return id

/-- Watch the statements of the test anew. -/
def reattach : Access Unit := do
  let test : Option Usability.Test ← ask .test
  match test with
  | none => throw .noTest
  | some test =>
    cleanup
    install test.tree

def endTest : Access Usability.Report := do
  let test : Option Usability.Test ← ask .endTest
  match test with
  | none => throw .noTest
  | some test =>
    discard flush
    let results : List Run.Verdict ← ask .results
    return test.report results

/-! ## Jobs -/

def Job.code (s : Settings) : Job → Program (Option Job)
  | .setup key c => do
    setUp s key c
    return none
  | .watch j => return (← (j.turn : Prog Watch.surroundings (Option Watch.Job))).map .watch

end BrowserScript.Session
