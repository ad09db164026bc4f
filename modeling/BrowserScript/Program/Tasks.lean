import BrowserScript.Program.Basic

/-!
Tasks that take turns on one thread. A task keeps its turn until it has to wait; the first one of
the list that can go on has the next turn. Time is counted in milliseconds and passes only when
no task can go on: then it is the least time that one of them waits for.
-/

namespace BrowserScript

namespace Tasks

/-- What a task can ask of the scheduler. A job is what a task in the background begins with. -/
inductive Request (Job : Type)
  | clock (r : Clock.Request)
  /-- Let all others go first. -/
  | pause
  | start (job : Job)
  /-- Start several jobs and wait until they have ended. -/
  | gather (jobs : List Job)

def Request.Result {Job : Type} : Request Job → Type
  | .clock r => r.Result
  | .pause | .start _ | .gather _ => Unit

def signature (Job : Type) : Signature := ⟨Request Job, Request.Result⟩

instance {Job : Type} : Signature.Within clock (signature Job) :=
  ⟨fun r => Prog.request (S := signature Job) (.clock r)⟩

section Requests

variable {T : Signature} {Job : Type} [Signature.Within (signature Job) T]

def ask (r : Request Job) : Prog T r.Result := (Prog.request (S := signature Job) r).within

variable (Job) in
def pause : Prog T Unit := ask (Request.pause : Request Job)

def start (job : Job) : Prog T Unit := ask (.start job)

def gather (jobs : List Job) : Prog T Unit := ask (.gather jobs)

end Requests

/-- Tasks ask their surroundings and the scheduler. -/
abbrev full (S : Signature) (Job : Type) : Signature := S.sum (signature Job)

/-- The surroundings of tasks. -/
structure Scene (S : Signature) (Job : Type) (m : Type → Type) where
  /-- The answer at a time; none if the task has to wait for it. -/
  serve : Nat → (r : S.Request) → m (Option (S.Answer r))
  /-- When an answer that has to be waited for comes at the latest. -/
  due : S.Request → m (Option Nat)
  /-- Whether others go first before a request is served. -/
  defers : S.Request → Bool
  /-- One turn of a job. It may go on as another job. -/
  code : Job → Prog (full S Job) (Option Job)
  /-- Let time pass, from one time to a later one. -/
  pass : Nat → Nat → m Unit

/-- Where a program has come to: it is over or waits. -/
inductive Rest (S : Signature) (Job β : Type)
  | over (result : β)
  | ready (p : Prog (full S Job) β)
  | paused (p : Prog (full S Job) β)
  | asleep (until_ : Nat) (p : Prog (full S Job) β)
  | gathering (jobs : List Job) (p : Prog (full S Job) β)
  | joining (tasks : List Nat) (p : Prog (full S Job) β)
  | asking (r : S.Request) (next : S.Answer r → Prog (full S Job) β)

variable {S : Signature} {Job α β : Type} {m : Type → Type} [Monad m]

/-- Let a program go on until it has to wait. Also the jobs it has started. -/
def drive (scene : Scene S Job m) (now : Nat) :
    Prog (full S Job) β → List Job → m (Rest S Job β × List Job)
  | .done b, started => return (.over b, started)
  | .ask (.inl r) next, started =>
    if scene.defers r then return (.paused (.ask (.inl r) next), started)
    else do
      match ← scene.serve now r with
      | some answer => drive scene now (next answer) started
      | none => return (.asking r next, started)
  | .ask (.inr (.clock .now)) next, started => drive scene now (next now) started
  | .ask (.inr (.clock (.sleep 0))) next, started => drive scene now (next ()) started
  | .ask (.inr (.clock (.sleep (ms + 1)))) next, started =>
    return (.asleep (now + ms + 1) (next ()), started)
  | .ask (.inr .pause) next, started => return (.paused (next ()), started)
  | .ask (.inr (.start job)) next, started => drive scene now (next ()) (started ++ [job])
  | .ask (.inr (.gather jobs)) next, started => return (.gathering jobs (next ()), started)

/-- How a turn of a task ends: with a result, as a job that has another turn, or for good. -/
inductive Close (Job α : Type)
  | result (a : α)
  | again (job : Job)
  | ended

/-- A program as the turn of a task. -/
abbrev Turn (S : Signature) (Job α : Type) : Type := Prog (full S Job) (Close Job α)

structure Task (S : Signature) (Job α : Type) where
  id : Nat
  rest : Rest S Job (Close Job α)

structure Machine (S : Signature) (Job α : Type) where
  now : Nat := 0
  /-- The identity of the next task. -/
  fresh : Nat := 0
  tasks : List (Task S Job α) := []
  /-- The results so far by task. -/
  results : List (Nat × α) := []

namespace Machine

def turnOf (scene : Scene S Job m) (job : Job) : Turn S Job α :=
  (scene.code job).bind fun
    | some next => .done (.again next)
    | none => .done .ended

def newTasks (scene : Scene S Job m) (fresh : Nat) : List Job → List (Task S Job α)
  | [] => []
  | job :: rest => ⟨fresh, .ready (turnOf scene job)⟩ :: newTasks scene (fresh + 1) rest

/-- What a task goes on with, if it can. -/
def awake? (scene : Scene S Job m) (k : Machine S Job α) (t : Task S Job α) :
    m (Option (Turn S Job α)) :=
  match t.rest with
  | .ready p => return some p
  | .asleep time p => return if time ≤ k.now then some p else none
  | .joining ids p => return if k.tasks.any fun t => ids.contains t.id then none else some p
  | .asking r next => return (← scene.serve k.now r).map next
  | .over _ | .paused _ | .gathering .. => return none

/-- The first of some tasks that can go on, with those before and after it. -/
def firstAwake (scene : Scene S Job m) (k : Machine S Job α) (before : List (Task S Job α)) :
    List (Task S Job α) →
      m (Option (List (Task S Job α) × Nat × Turn S Job α × List (Task S Job α)))
  | [] => return none
  | t :: after => do
    match ← k.awake? scene t with
    | some p => return some (before.reverse, t.id, p, after)
    | none => firstAwake scene k (t :: before) after

/-- The machine after a turn of a task. The jobs it gathers stand before it, those it has started
at the end. -/
def afterTurn (scene : Scene S Job m) (k : Machine S Job α) (before : List (Task S Job α))
    (id : Nat) (rest : Rest S Job (Close Job α)) (started : List Job)
    (after : List (Task S Job α)) : Machine S Job α :=
  let begun := newTasks scene k.fresh started
  let fresh := k.fresh + started.length
  match rest with
  | .over (.result a) =>
    { k with fresh, tasks := before ++ after ++ begun, results := (id, a) :: k.results }
  | .over (.again job) =>
    { k with fresh, tasks := before ++ ⟨id, .ready (turnOf scene job)⟩ :: after ++ begun }
  | .over .ended => { k with fresh, tasks := before ++ after ++ begun }
  | .gathering jobs next =>
    let children := newTasks scene fresh jobs
    let parent := ⟨id, .joining (children.map (·.id)) next⟩
    { k with fresh := fresh + jobs.length, tasks := before ++ children ++ parent :: after ++ begun }
  | rest => { k with fresh, tasks := before ++ ⟨id, rest⟩ :: after ++ begun }

/-- A task that let the others go first can go on. A request it deferred is served now. -/
def resumed (t : Task S Job α) : Task S Job α :=
  match t.rest with
  | .paused (.ask (.inl r) next) => { t with rest := .asking r next }
  | .paused p => { t with rest := .ready p }
  | _ => t

def isPaused (t : Task S Job α) : Bool :=
  match t.rest with
  | .paused _ => true
  | _ => false

def wakeTime? (scene : Scene S Job m) (t : Task S Job α) : m (Option Nat) :=
  match t.rest with
  | .asleep time _ => return some time
  | .asking r _ => scene.due r
  | _ => return none

/-- When none can go on: those that let the others go first can, or else time passes. None when
all wait for ever. -/
def advance? (scene : Scene S Job m) (k : Machine S Job α) : m (Option (Machine S Job α)) :=
  if k.tasks.any isPaused then return some { k with tasks := k.tasks.map resumed }
  else do
    match ((← k.tasks.mapM (wakeTime? scene)).filterMap id).min? with
    | none => return none
    | some time =>
      let later := max k.now time
      scene.pass k.now later
      return some { k with now := later }

/-- One step, unless all wait for ever. -/
def step? (scene : Scene S Job m) (k : Machine S Job α) : m (Option (Machine S Job α)) := do
  match ← k.firstAwake scene [] k.tasks with
  | some (before, id, p, after) =>
    let (rest, started) ← drive scene k.now p []
    return some (k.afterTurn scene before id rest started after)
  | none => k.advance? scene

/-- Go on for so many steps at most, until the tasks are over. -/
def runFor (scene : Scene S Job m) (ids : List Nat) : Nat → Machine S Job α → m (Machine S Job α)
  | 0, k => return k
  | steps + 1, k =>
    if k.tasks.any fun t => ids.contains t.id then do
      match ← k.step? scene with
      | some k => runFor scene ids steps k
      | none => return k
    else return k

/-- More steps than can be taken. -/
def enough : Nat := 1 <<< 62

/-- Run programs at the same time. Those that began earlier and are not over go on behind them
and keep what they have come to when all the programs are over. A program that waits for ever
has no result. -/
def run (scene : Scene S Job m) (k : Machine S Job α) (programs : List (Prog (full S Job) α)) :
    m (List (Option α) × Machine S Job α) := do
  let ids := List.range' k.fresh programs.length
  let added : List (Task S Job α) :=
    (ids.zip programs).map fun (id, p) => ⟨id, .ready (p.bind fun a => .done (.result a))⟩
  let begun := { k with fresh := k.fresh + programs.length, tasks := added ++ k.tasks }
  let ended ← begun.runFor scene ids enough
  return (ids.map fun id => (ended.results.find? (·.1 == id)).map (·.2),
    { ended with results := [], tasks := ended.tasks.filter fun t => !ids.contains t.id })

end Machine

end Tasks

end BrowserScript
