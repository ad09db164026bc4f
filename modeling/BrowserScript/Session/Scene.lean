import BrowserScript.Session.Watching

/-!
The surroundings of a session: what is asked about statements and watches is answered from a desk.
-/

namespace BrowserScript.Session

/-- Where the desk of a session stands. -/
structure Keeper (m : Type → Type) where
  onDesk : {α : Type} → (Desk → α × Desk) → m α
  /-- What the page tells about its changes. -/
  feed : m Watch.Feed
  /-- Tell someone who asked for a watch by name how it ended. -/
  answerCaller : String → Bool → Verification.Outcome → m Unit

/-- What a session can ask besides the page and the store. -/
abbrev bookkeeping : Signature := Desk.signature.sum Watch.signature

namespace Keeper

variable {m : Type → Type} [Monad m]

def onRoster (k : Keeper m) (f : Watch.Roster → α × Watch.Roster) : m α :=
  k.onDesk fun d =>
    let (a, roster) := f d.roster
    (a, { d with roster })

def isStopped (k : Keeper m) (watch : Nat) : m Bool := k.onRoster fun r => (r.isStopped watch, r)

/-- Answer a watch, if it need not wait. -/
def serveWatch (k : Keeper m) (now : Nat) : (r : Watch.Request) → m (Option r.Result)
  | .enrol => do
    let id ← k.onRoster Watch.Roster.enrol
    return some (id, (← k.feed).position)
  | .isStopped watch => return some (← k.isStopped watch)
  | .wait alarm => return alarm.wake? now (← k.isStopped alarm.watch) (← k.feed)
  | .report (.statement key) _ found => do
    discard (k.onDesk (Desk.settle key found))
    return some ()
  | .report (.caller name) satisfied found => return some (← k.answerCaller name satisfied found)
  | .leave watch => return some (← k.onRoster fun r => ((), r.leave watch))
  | .stop watch => return some (← k.onRoster fun r => ((), r.stop [watch]))
  | .join watch =>
    return if ← k.onRoster fun r => (r.hasEnded watch, r) then some () else none

/-- Answer what is asked about statements and watches, if there is no need to wait. -/
def keep (k : Keeper m) (now : Nat) : (r : bookkeeping.Request) → m (Option (bookkeeping.Answer r))
  | .inl r => return some (← k.onDesk (Desk.serve r))
  | .inr r => k.serveWatch now r

def due : bookkeeping.Request → Option Nat
  | .inr (.wait alarm) => some alarm.due
  | _ => none

/-- The surroundings where page and store answer at once, a slow store after others went first. -/
def scene (k : Keeper m) (settings : Settings) (slowStore : Bool)
    (page : (r : Page.Request) → m (Page.signature.Answer r))
    (store : (r : Store.Request) → m (Store.signature.Answer r)) :
    Tasks.Scene signature Job m where
  serve now
    | .inl r => return some (← page r)
    | .inr (.inl r) => return some (← store r)
    | .inr (.inr r) => k.keep now r
  due
    | .inr (.inr r) => return due r
    | _ => return none
  defers
    | .inr (.inl _) => slowStore
    | _ => false
  code := Job.code settings
  pass _ _ := return

end Keeper

end BrowserScript.Session
