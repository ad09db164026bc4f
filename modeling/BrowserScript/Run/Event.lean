import BrowserScript.Json.Decode

/-!
What a run tells those who follow it: progress, log entries and verdicts on verify statements.
-/

namespace BrowserScript.Run

/-- The verdict on a verify statement, which is named by its source text. -/
structure Verdict where
  source : String
  success : Bool
  message : String
deriving DecidableEq, Repr

def Verdict.toFields (v : Verdict) : Json.Fields :=
  [("sourceText", .string v.source), ("success", .bool v.success), ("message", .string v.message)]

/-- By source, then by success, then by message. -/
def Verdict.sorted (vs : List Verdict) : List Verdict :=
  vs.mergeSort fun v w => decide (v.source < w.source) || v.source == w.source &&
    (v.success < w.success || v.success == w.success && v.message ≤ w.message)

def Verdict.toJson (v : Verdict) : Json :=
  .array [.string v.source, .bool v.success, .string v.message]

inductive Event
  /-- So many of all top-level commands are done. -/
  | progress (done total : Nat)
  /-- Lines count from one. -/
  | log (line : Nat) (description : String)
  | verdict (v : Verdict)
deriving DecidableEq, Repr

namespace Event

def progress? : Event → Option (Nat × Nat)
  | .progress done total => some (done, total)
  | _ => none

def log? : Event → Option (Nat × String)
  | .log line description => some (line, description)
  | _ => none

def verdict? : Event → Option Verdict
  | .verdict v => some v
  | _ => none

/-! ## Documents -/

def tagged (tag : String) (fields : Json.Fields) : Json :=
  .object (("type", .string tag) :: fields)

def toJson : Event → Json
  | .progress done total =>
    tagged "progress" [("line", .ofNat done), ("total", .ofNat total)]
  | .log line description =>
    tagged "log" [("line", .ofNat line), ("description", .string description)]
  | .verdict v => tagged "verification" v.toFields

def ofContent? (tag : String) (j : Json) : Option Event := do
  match tag with
  | "progress" =>
    let [done, total] ← Json.record ["line", "total"] 2 j | none
    some (.progress (← Json.required Json.asWord done) (← Json.required Json.asWord total))
  | "log" =>
    let [line, description] ← Json.record ["line", "description"] 2 j | none
    some (.log (← Json.required Json.asWord line) (← Json.required Json.asString description))
  | "verification" =>
    let [source, success, message] ← Json.record ["sourceText", "success", "message"] 3 j | none
    some (.verdict ⟨← Json.required Json.asString source, ← Json.required Json.asBool success,
      ← Json.required Json.asString message⟩)
  | _ => none

/-- An event from an object with its tag, or from an array that begins with the tag. -/
def ofJson? : Json → Option Event
  | .object fields =>
    match fields.filter (·.1 == "type") with
    | [(_, .string tag)] => ofContent? tag (.object (fields.filter (·.1 != "type")))
    | _ => none
  | .array (.string tag :: rest) => ofContent? tag (.array rest)
  | _ => none

end Event

end BrowserScript.Run
