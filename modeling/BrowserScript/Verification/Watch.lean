import BrowserScript.Verification.Probe

/-!
Watches: tasks that look at a probe again and again, after each change of the document that the
probe wants and at regular times, until it is satisfied, can no longer be, or time runs out. Times
are in milliseconds.
-/

namespace BrowserScript.Watch

/-- Who is told how a watch ended. -/
inductive Purpose
  /-- The verify statement with this key. -/
  | statement (key : String)
  /-- Someone who asked for it under a name. -/
  | caller (name : String)
deriving DecidableEq, Repr

/-- What ends the wait of a watch. -/
structure Alarm where
  watch : Nat
  expiry : Nat
  /-- When the next regular look is due, if there are any. -/
  tick : Option Nat
  /-- How many changes of the document have been read; none without a feed of changes. -/
  position : Option Nat
deriving DecidableEq, Repr

inductive Wake
  | stopped
  | expired
  | tick (now : Nat)
  | change (c : Page.Change)
  /-- Changes were lost; the reader is now at this position. -/
  | lagged (position : Nat)
  | closed

inductive Request
  /-- A new identity, and how many changes of the document there were so far, if there is a feed
  of them. -/
  | enrol
  | isStopped (watch : Nat)
  | wait (alarm : Alarm)
  | report (purpose : Purpose) (satisfied : Bool) (found : Verification.Outcome)
  | leave (watch : Nat)
  | stop (watch : Nat)
  /-- Wait until a watch has ended. -/
  | join (watch : Nat)

def Request.Result : Request → Type
  | .enrol => Nat × Option Nat
  | .isStopped _ => Bool
  | .wait _ => Wake
  | .report .. | .leave _ | .stop _ | .join _ => Unit

def signature : Signature := ⟨Request, Request.Result⟩

/-- What a watch can ask. -/
abbrev surroundings : Signature := Page.signature.sum signature

def ask {T : Signature} [Signature.Within signature T] (r : Request) : Prog T r.Result :=
  (Prog.request (S := signature) r).within

def isStopped (watch : Nat) : Prog surroundings Bool := ask (.isStopped watch)

def wait (alarm : Alarm) : Prog surroundings Wake := ask (.wait alarm)

/-- How long a watch goes on, and how far its regular looks are apart. -/
structure Terms where
  deadline : Nat
  period : Nat
deriving DecidableEq, Repr

structure Job where
  id : Nat
  probe : Probe
  purpose : Purpose
  terms : Terms
  expiry : Nat
  tick : Nat
  position : Option Nat
  polling : Bool
  /-- Whether to look before waiting. -/
  pending : Bool
deriving Repr

/-- A new watch looks at once. -/
def Job.begin (id now : Nat) (position : Option Nat) (probe : Probe) (terms : Terms)
    (purpose : Purpose) : Job :=
  { id, probe, purpose, terms, position, expiry := now + terms.deadline,
    tick := now + terms.period, polling := probe.polls || position.isNone, pending := true }

namespace Job

def alarm (j : Job) : Alarm :=
  ⟨j.id, j.expiry, if j.polling then some j.tick else none, j.position⟩

/-- When a look that was due at a time and came about now is followed by the next. One that came
late moves the later ones. -/
def nextTick (due now period : Nat) : Nat := if due + 5 < now then now + period else due + period

/-- The watch after a wake that leaves it running. -/
def woken (j : Job) : Wake → Job
  | .tick now => { j with pending := true, tick := nextTick j.tick now j.terms.period }
  | .change c => { j with pending := j.probe.wants c, position := j.position.map (· + 1) }
  | .lagged position => { j with pending := true, position := some position }
  | .closed => { j with position := none, polling := true }
  | .stopped | .expired => j

def leave (j : Job) : Prog surroundings (Option Job) := do
  ask (.leave j.id)
  return none

def finish (j : Job) (satisfied : Bool) (found : Verification.Outcome) :
    Prog surroundings (Option Job) := do
  ask (.report j.purpose satisfied found)
  j.leave

/-- A look of a watch, and what to do with it unless the watch was stopped meanwhile. -/
def looking (j : Job) (next : Observation → Prog surroundings (Option Job)) :
    Prog surroundings (Option Job) := do
  let seen ← (j.probe.look true : Prog Page.signature Observation)
  if ← isStopped j.id then j.leave else next seen

/-- The last look, when time has run out. -/
def expire (j : Job) : Prog surroundings (Option Job) :=
  j.looking fun
    | .satisfied found => j.finish true found
    | .unmet found | .gone found => j.finish false (j.probe.expired found j.terms.deadline)

def await (j : Job) : Prog surroundings (Option Job) := do
  match ← wait j.alarm with
  | .stopped => j.leave
  | .expired => j.expire
  | wake => return some ({ j with pending := false }.woken wake)

/-- Look if there is reason to, then wait once. A watch without a period cannot run. -/
def turn (j : Job) : Prog surroundings (Option Job) :=
  if j.terms.period = 0 then j.leave
  else if j.pending then
    j.looking fun
      | .satisfied found => j.finish true found
      | .gone found => j.finish false found
      | .unmet _ => j.await
  else j.await

end Job

/-! ## Which watches there are -/

structure Roster where
  fresh : Nat := 0
  stopped : List Nat := []
  ended : List Nat := []

namespace Roster

def enrol (r : Roster) : Nat × Roster := (r.fresh, { r with fresh := r.fresh + 1 })

def stop (r : Roster) (watches : List Nat) : Roster := { r with stopped := watches ++ r.stopped }

def leave (r : Roster) (watch : Nat) : Roster := { r with ended := watch :: r.ended }

def isStopped (r : Roster) (watch : Nat) : Bool := r.stopped.contains watch

def hasEnded (r : Roster) (watch : Nat) : Bool := r.ended.contains watch

end Roster

/-- What a page tells about changes. -/
inductive Feed
  | none
  /-- Changes could be told but never will be. -/
  | closed
  /-- So many changes so far, the last of which can still be read. -/
  | changes (all : Array Page.Change) (kept : Nat)

def Feed.position : Feed → Option Nat
  | .none => .none
  | .closed => some 0
  | .changes all _ => some all.size

/-- The next news for a reader who has read so many changes. -/
def Feed.next? (feed : Feed) (position : Nat) : Option Wake :=
  match feed with
  | .none => .none
  | .closed => some .closed
  | .changes all kept =>
    let oldest := all.size - kept
    if position < oldest then some (.lagged oldest) else all[position]?.map .change

/-- What ends a wait now. -/
def Alarm.wake? (a : Alarm) (now : Nat) (stopped : Bool) (feed : Feed) : Option Wake :=
  if stopped then some .stopped
  else if a.expiry ≤ now then some .expired
  else if a.tick.any (· ≤ now) then some (.tick now)
  else a.position.bind feed.next?

/-- When a wait ends at the latest. -/
def Alarm.due (a : Alarm) : Nat :=
  match a.tick with
  | some tick => min a.expiry tick
  | none => a.expiry

end BrowserScript.Watch
