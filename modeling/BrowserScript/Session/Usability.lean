import BrowserScript.Command.Document
import BrowserScript.Run.Event

/-!
Usability tests: a task for a tester, whose verify statements are watched while the tester works,
and the report at the end.
-/

namespace BrowserScript.Usability

structure Task where
  /-- One is chosen where there is none. -/
  id : Option String := none
  name : String
  tester : String
  description : Option String := none
  script : String
deriving Repr

def Task.ofJson? (j : Json) : Option Task := do
  match ← Json.record ["taskId", "taskName", "testerName", "description", "script"] 5 j with
  | [id, name, tester, description, script] =>
    some {
      id := ← Json.optional Json.asString id
      name := ← Json.required Json.asString name
      tester := ← Json.required Json.asString tester
      description := ← Json.optional Json.asString description
      script := ← Json.required Json.asString script }
  | _ => none

/-- A test under way. -/
structure Test where
  id : String
  name : String
  tester : String
  tree : List Block
  /-- The statements of the script. -/
  statements : List Run.Verdict

def notYetMet : String := "Verification not yet met"

/-- Put a verdict in place of the one on its source, or at the end. -/
def put (v : Run.Verdict) : List Run.Verdict → List Run.Verdict
  | [] => [v]
  | old :: rest => if old.source = v.source then v :: rest else old :: put v rest

/-- The sources of the verify commands, each once. -/
def statementsOf (tree : List Block) : List Run.Verdict :=
  ((Block.preorderAll tree).filter (·.isVerify)).foldl (fun known c =>
    put ⟨c.src, false, notYetMet⟩ known) []

def Test.ofTask (task : Task) (id : String) (tree : List Block) : Test :=
  ⟨id, task.name, task.tester, tree, statementsOf tree⟩

structure Report where
  id : String
  name : String
  tester : String
  statements : List Run.Verdict

/-- The statements of a test, with what is known about them in the end. -/
def Test.report (t : Test) (results : List Run.Verdict) : Report :=
  ⟨t.id, t.name, t.tester, results.foldl (fun known v => put v known) t.statements⟩

def verdictsJson (vs : List Run.Verdict) : Json :=
  let sorted := vs.mergeSort fun x y => x.source ≤ y.source
  .object (sorted.map fun v =>
    (v.source, .object [("message", .string v.message), ("success", .bool v.success)]))

/-- The report, with the time of day where it is known. -/
def Report.toJson (r : Report) (time : Option String) : Json :=
  .ofFields [("taskId", some (.string r.id)), ("time", time.map .string),
    ("verifyStatements", some (verdictsJson r.statements)), ("taskName", some (.string r.name)),
    ("testerName", some (.string r.tester))]

end BrowserScript.Usability
