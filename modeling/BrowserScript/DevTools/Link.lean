import BrowserScript.DevTools.Basic
import BrowserScript.DevTools.Message
import BrowserScript.Json.Reader

/-!
Links: the calls over one connection. A call is numbered and sent as a message; the first message
from the browser with its number answers it. When the connection ends, the calls that wait are
given up, and a call that waits too long fails.
-/

namespace BrowserScript.DevTools

/-- Something that arrives over a connection. -/
inductive Frame
  | text (s : String)
  /-- Neither a text nor an end. -/
  | other
  | closed
  | failed (text : String)
  | ended
deriving DecidableEq, Repr

/-- What the network can be asked. Failures are texts. -/
inductive Network.Request
  | fetch (method url : String)
  /-- Connections are numbered. -/
  | connect (url : String)
  | send (connection : Nat) (text : String)
  /-- All that has arrived. There is an answer as soon as there is something. -/
  | receive (connection : Nat)

def Network.Request.Result : Network.Request → Type
  | .fetch .. => Except String String
  | .connect _ => Except String Nat
  | .send .. => Except String Unit
  | .receive _ => List Frame

def network : Signature := ⟨Network.Request, Network.Request.Result⟩

/-- What has become of a call that waited. -/
inductive Waited
  | answered (answer : Except Error Json)
  | givenUp
  | late

structure Link where
  /-- The number of the next call. -/
  fresh : Nat := 1
  waiting : List Nat := []
  /-- Answers that have not been taken. -/
  answers : List (Nat × Except Error Json) := []
  /-- Nobody listens any more. -/
  deaf : Bool := false

namespace Link

def begin (l : Link) : Nat × Link :=
  (l.fresh, { l with fresh := l.fresh + 1, waiting := l.fresh :: l.waiting })

def forget (l : Link) (call : Nat) : Link := { l with waiting := l.waiting.filter (· != call) }

/-- Take an answer for a call that waits; others are of no use. -/
def answer (l : Link) (call : Nat) (a : Except Error Json) : Link :=
  if l.waiting.contains call then { l.forget call with answers := (call, a) :: l.answers } else l

def giveUp (l : Link) : Link := { l with waiting := [] }

/-- What has become of a call at a time, if anything has. -/
def await? (l : Link) (call deadline now : Nat) : Option (Waited × Link) :=
  match l.answers.find? (·.1 == call) with
  | some (_, a) => some (.answered a, { l with answers := l.answers.filter (·.1 != call) })
  | none =>
    if !l.waiting.contains call then some (.givenUp, l)
    else if deadline ≤ now then some (.late, l)
    else none

inductive Request
  | begin
  | forget (call : Nat)
  | answer (call : Nat) (a : Except Error Json)
  | giveUp
  | await (call deadline : Nat)
  | isDeaf
  | deafen

def Request.Result : Request → Type
  | .begin => Nat
  | .await .. => Waited
  | .isDeaf => Bool
  | .forget _ | .answer .. | .giveUp | .deafen => Unit

/-- Answer a request, if it need not wait. -/
def serve? (now : Nat) : (r : Request) → Link → Option (r.Result × Link)
  | .begin, l => some l.begin
  | .forget call, l => some ((), l.forget call)
  | .answer call a, l => some ((), l.answer call a)
  | .giveUp, l => some ((), l.giveUp)
  | .await call deadline, l => l.await? call deadline now
  | .isDeaf, l => some (l.deaf, l)
  | .deafen, l => some ((), { l with deaf := true })

def due : Request → Option Nat
  | .await _ deadline => some deadline
  | _ => none

end Link

/-- What the links of all connections can be asked. -/
def links : Signature := ⟨Nat × Link.Request, fun r => r.2.Result⟩

/-- What calls over a link need. -/
abbrev Link.surroundings : Signature := (network.sum links).sum clock

namespace Link

/-- How long a call waits, in milliseconds. -/
def patience : Nat := 30000

def ask (connection : Nat) (r : Request) : Prog surroundings r.Result :=
  (Prog.request (S := links) (connection, r)).within

def onNetwork (r : Network.Request) : Prog surroundings r.Result :=
  (Prog.request (S := network) r).within

def call (connection : Nat) (c : Call) : Prog surroundings (Except Error Json) := do
  let id : Nat ← ask connection .begin
  let sent : Except String Unit ← onNetwork (.send connection (c.toJson (some id)).compact)
  match sent with
  | .error text =>
    ask connection (.forget id)
    return .error (.socket text)
  | .ok () =>
    let waited : Waited ← ask connection (.await id ((← currentTime) + patience))
    match waited with
    | .answered a => return a
    | .givenUp => return .error .sessionClosed
    | .late =>
      ask connection (.forget id)
      return .error (.timeout ("Request " ++ c.method ++ " timed out"))

/-- The call that a text from the browser answers, and how. -/
def answerOf? (text : String) : Option (Nat × Except Error Json) := do
  let m ← (Json.parse? text).bind Incoming.ofJson?
  let id ← m.id
  match m.failure with
  | some (code, text) => some (id, .error (.protocol code text))
  | none => some (id, .ok (m.result.getD .null))

/-- Take in what has arrived. Whether to go on: after an end all calls are given up. -/
def takeIn (connection : Nat) : List Frame → Prog surroundings Bool
  | [] => return true
  | .text text :: rest => do
    if let some (call, a) := answerOf? text then ask connection (.answer call a)
    takeIn connection rest
  | .other :: rest => takeIn connection rest
  | .closed :: _ | .failed _ :: _ | .ended :: _ => do
    ask connection .giveUp
    return false

/-- Receive once. Whether to go on. -/
def listen (connection : Nat) : Prog surroundings Bool := do
  let frames : List Frame ← onNetwork (.receive connection)
  let deaf : Bool ← ask connection .isDeaf
  if deaf then return false else takeIn connection frames

def serveCalls (connection : Nat) :
    (r : DevTools.surroundings.Request) → Prog surroundings (DevTools.surroundings.Answer r)
  | .inl c => call connection c
  | .inr r => (Prog.request (S := clock) r).within

/-- A program of calls, over a connection. -/
def overConnection (connection : Nat) (p : Prog DevTools.surroundings α) : Prog surroundings α :=
  p.run (serveCalls connection)

end Link

end BrowserScript.DevTools
