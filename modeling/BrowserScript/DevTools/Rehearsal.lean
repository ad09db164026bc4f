import BrowserScript.DevTools.Link

/-!
Rehearsals: a browser that plays a script. Pages over HTTP are written down, and rules say what
comes back for a message and when.
-/

namespace BrowserScript.DevTools

namespace Rehearsal

/-- A written answer to a request over HTTP. -/
inductive Body
  | text (s : String)
  | failure (reason : String)

inductive Content
  /-- An answer with a number, by default that of the call. -/
  | answer (id : Option Nat) (name : String) (value : Json)
  /-- A text with places for the number of the call. -/
  | text (template : String)
  | frame (f : Frame)

structure Cue where
  content : Content
  /-- How many milliseconds after the message it comes. -/
  after : Nat

structure Rule where
  method : Option String
  /-- What occurs in the expression or the parameters. -/
  has : Option String
  /-- How often it can still be used; without limit when there is none. -/
  times : Option Nat
  /-- Why the message is not sent. -/
  refusal : Option String
  cues : List Cue

/-- A frame on its way. -/
structure Arrival where
  connection : Nat
  time : Nat
  frame : Frame

end Rehearsal

open Rehearsal

structure Rehearsal where
  bodies : List (String × Body)
  /-- Why no connection can be made. -/
  refusal : Option String
  rules : List Rule
  /-- What was asked, the latest first. -/
  asked : List Json := []
  connections : Nat := 0
  arrivals : List Arrival := []

namespace Rehearsal

/-! ## Documents -/

def valueAnswer (id : Option Nat) (v : Json) : Content :=
  .answer id "result" (.object [("result", .object [("value", v)])])

def failureOf (j : Json) : Json :=
  match j with
  | .array [code, message] => .object [("code", code), ("message", message)]
  | _ => .null

def Content.ofJson (j : Json) : Content :=
  let id := j.natural? "id"
  let found (name : String) (f : Json → Content) : Option Content := (j.field? name).map f
  let text (v : Json) : String := v.string?.getD ""
  (found "value" (valueAnswer id) <|> found "result" (.answer id "result")
    <|> found "error" (fun v => .answer id "error" (failureOf v))
    <|> found "text" (fun v => .text (text v)) <|> found "close" (fun _ => .frame .closed)
    <|> found "fail" (fun v => .frame (.failed (text v)))
    <|> found "end" (fun _ => .frame .ended)).getD (.frame .other)

def Rule.ofJson (j : Json) : Rule where
  method := j.text? "method"
  has := j.text? "has"
  times := j.natural? "times"
  refusal := j.text? "refuse"
  cues := (j.items "frames").map fun f => ⟨.ofJson f, f.natural "after" 0⟩

def Body.ofJson (j : Json) : Body :=
  match j.field? "json", j.text? "text", j.text? "fail" with
  | some v, _, _ => .text v.compact
  | none, some t, _ => .text t
  | none, none, reason => .failure (reason.getD "")

def ofJson (j : Json) : Rehearsal where
  bodies := (j.field "http").fields.map fun (key, v) => (key, .ofJson v)
  refusal := (j.field "ws").text? "fail"
  rules := (j.items "rules").map Rule.ofJson

/-! ## Playing -/

def note (r : Rehearsal) (name : String) (v : Json) : Rehearsal :=
  { r with asked := .object [(name, v)] :: r.asked }

/-- Equal entries in a row as one, with their number. -/
def tally (entries : List Json) : Json :=
  let groups := (entries.map fun e => (e, e.canonical.compact)).splitBy fun x y => x.2 == y.2
  .array (groups.filterMap fun g => g.head?.map fun e => .array [e.1, .ofNat g.length])

/-- What a rule looks into. -/
def subjectOf (message : Json) : String :=
  let params := message.field "params"
  (params.text? "expression").getD params.canonical.compact

def Rule.fits (rule : Rule) (message : Json) : Bool :=
  rule.method.all (fun m => message.text? "method" == some m)
    && rule.has.all (fun piece => Text.occursIn piece (subjectOf message))
    && rule.times != some 0

/-- The first rule that fits, and the rules after its use. -/
def pick (message : Json) : List Rule → Option (Rule × List Rule)
  | [] => none
  | rule :: rest =>
    if rule.fits message then some (rule, { rule with times := rule.times.map (· - 1) } :: rest)
    else (pick message rest).map fun (found, others) => (found, rule :: others)

def Content.toFrame (c : Content) (call : Nat) : Frame :=
  match c with
  | .answer id name v =>
    .text (Json.object [("id", .ofNat (id.getD call)), (name, v)]).compact
  | .text template =>
    .text (String.ofList
      (Text.replaceAll "$ID".toList (toString call).toList template.toList))
  | .frame f => f

def send (r : Rehearsal) (now connection : Nat) (text : String) :
    Except String Unit × Rehearsal :=
  let message := (Json.parse? text).getD .null
  let call := message.natural "id" 0
  let r := r.note "ws" message
  let usual : Rule := ⟨none, none, none, none, [⟨valueAnswer none .null, 0⟩]⟩
  let (rule, rules) := (pick message r.rules).getD (usual, r.rules)
  let r := { r with rules }
  match rule.refusal with
  | some reason => (.error reason, r)
  | none =>
    let coming := rule.cues.map fun c =>
      { connection, time := now + c.after, frame := c.content.toFrame call }
    (.ok (), { r with arrivals := r.arrivals ++ coming })

/-- When the next frame arrives. -/
def due (r : Rehearsal) (connection : Nat) : Option Nat :=
  ((r.arrivals.filter (·.connection == connection)).map (·.time)).min?

/-- The frames that have arrived, if there are any. -/
def receive? (r : Rehearsal) (now connection : Nat) : Option (List Frame × Rehearsal) :=
  let (here, others) := r.arrivals.partition fun a => a.connection == connection && a.time ≤ now
  match here.mergeSort fun a b => a.time ≤ b.time with
  | [] => none
  | sorted => some (sorted.map (·.frame), { r with arrivals := others })

def serve? (now : Nat) : (q : Network.Request) → Rehearsal → Option (q.Result × Rehearsal)
  | .fetch method url, r =>
    let key := method ++ " " ++ url
    let r := r.note "http" (.string key)
    let answer :=
      match (r.bodies.find? (·.1 == key)).map (·.2) with
      | some (.text s) => .ok s
      | some (.failure reason) => .error reason
      | none => .error "error sending request"
    some (answer, r)
  | .connect url, r =>
    let r := r.note "connect" (.string url)
    match r.refusal with
    | some reason => some (.error reason, r)
    | none => some (.ok r.connections, { r with connections := r.connections + 1 })
  | .send connection text, r => some (r.send now connection text)
  | .receive connection, r => r.receive? now connection

end Rehearsal

end BrowserScript.DevTools
