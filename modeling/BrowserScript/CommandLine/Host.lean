import BrowserScript.CommandLine.Basic

/-!
Where commands run: the world outside the program, and what the program keeps while it runs.
-/

namespace BrowserScript.CommandLine

/-- The world outside the program. -/
structure Host (m : Type → Type) where
  /-- Something that is received may have to be waited for. -/
  network : Nat → (r : DevTools.Network.Request) → m (Option r.Result)
  /-- When the next frame comes over a connection. -/
  arrival : Nat → m (Option Nat)
  file : (r : Store.File.Request) → m (Except Store.Error r.Result)
  console : (r : Console.Request) → m r.Result
  pass : Nat → Nat → m Unit

/-- What the program keeps. -/
structure Office where
  links : List (Nat × DevTools.Link) := []
  desk : Session.Desk := {}

namespace Office

def link (o : Office) (connection : Nat) : DevTools.Link :=
  ((o.links.find? (·.1 == connection)).map (·.2)).getD {}

def setLink (o : Office) (connection : Nat) (l : DevTools.Link) : Office :=
  { o with links := (connection, l) :: o.links.filter (·.1 != connection) }

end Office

/-- The line that logs an event. -/
def lineOf : Run.Event → Severity × String
  | .progress done total =>
    (.info, "Progress line=" ++ toString done ++ " total=" ++ toString total)
  | .log line description => (.info, description ++ " line=" ++ toString line)
  | .verdict v =>
    let text := v.message ++ " src=" ++ v.source
    if v.success then (.info, "✅ " ++ text) else (.warn, "❌ " ++ text)

namespace Host

variable {m : Type → Type} [Monad m]

/-- Use the desk, and log what it told. -/
def onDesk (h : Host m) (f : Session.Desk → α × Session.Desk) : StateT Office m α := do
  let o ← get
  let (a, desk) := f o.desk
  set { o with desk := { desk with told := [] } }
  for e in desk.told.reverse do
    let (severity, text) := lineOf e
    liftM (h.console (.log severity text))
  return a

def onLink (connection : Nat) (now : Nat) (r : DevTools.Link.Request) :
    StateT Office m (Option r.Result) := do
  let o ← get
  match DevTools.Link.serve? now r (o.link connection) with
  | some (a, l) =>
    set (o.setLink connection l)
    return some a
  | none => return none

/-- A page of a browser tells nothing about its changes. -/
def keeper (h : Host m) : Session.Keeper (StateT Office m) where
  onDesk := h.onDesk
  feed := return .none
  answerCaller _ _ _ := return ()

def scene (h : Host m) : Tasks.Scene signature Job (StateT Office m) where
  serve now
    | .inl (.inl r) => liftM (h.network now r)
    | .inl (.inr (connection, r)) => onLink connection now r
    | .inr (.inl r) => return some (← liftM (h.file r))
    | .inr (.inr (.inl r)) => return some (← liftM (h.console r))
    | .inr (.inr (.inr r)) => h.keeper.keep now r
  due
    | .inl (.inl (.receive connection)) => liftM (h.arrival connection)
    | .inl (.inr (_, r)) => return DevTools.Link.due r
    | .inr (.inr (.inr r)) => return Session.Keeper.due r
    | _ => return none
  defers
    | .inr (.inl _) => true
    | _ => false
  code := Job.code
  pass now later := liftM (h.pass now later)

end Host

end BrowserScript.CommandLine
