import BrowserScript.Keyword.Basic
import BrowserScript.Program.Tasks
import BrowserScript.Run.Step
import BrowserScript.Script.Tree
import BrowserScript.Session.Desk

/-!
Sessions: scripts are read with the keywords of the page and run on it, a run goes on where it
ended, and it can be asked to stop.
-/

namespace BrowserScript.Session

/-- What runs in the background: the setup of a statement and a watch. -/
inductive Job
  | setup (key : String) (c : Command)
  | watch (j : Watch.Job)

/-- What a session can ask besides the page. -/
abbrev besidesPage : Signature := Store.signature.sum (Desk.signature.sum Watch.signature)

abbrev signature : Signature := Page.signature.sum besidesPage

abbrev surroundings : Signature := Tasks.full signature Job

abbrev Program (α : Type) : Type := Prog surroundings α

inductive Error
  | store (e : Store.Error)
  | testRunning (id : String)
  | noTest
deriving DecidableEq, Repr, Inhabited

/-- The kind of an error, for programs. -/
def Error.kind : Error → String
  | .store _ => "Store"
  | .testRunning _ => "TestAlreadyRunning"
  | .noTest => "NoTestRunning"

def Error.message : Error → String
  | .store e => "Store error: " ++ e.message
  | .testRunning id => "A usability test is already running: " ++ id
  | .noTest => "No usability test is running"

/-- A program of a session that ends with the first error. -/
abbrev Access (α : Type) : Type := ExceptT Error (Prog surroundings) α

def ask (r : Desk.Request) : Program r.Result := (Prog.request (S := Desk.signature) r).within

def ofRun (a : Run.Access α) : Access α := ExceptT.mk do
  match ← (a.run : Prog Run.surroundings (Except Store.Error α)) with
  | .ok x => return .ok x
  | .error e => return .error (.store e)

def ofStore (a : Store.Access α) : Access α := ofRun (liftM a)

def onPage (p : Prog Page.signature α) : Program α := p.within

/-- The keywords for the page. Without an address there are only the shared ones. -/
def keywords : Access KeywordSet := do
  let url := (← (onPage Page.url.result : Program _)).toOption
  let shared ← ofStore Store.sharedKeywords
  match url.bind Keyword.domainOfUrl with
  | some domain => return ⟨shared, ← ofStore (Store.domainKeywords domain)⟩
  | none => return ⟨shared, []⟩

def parse (s : Settings) (script : String) : Access (List Block) :=
  return Script.parse (← keywords) s.commandTimeout script

def parseLine (s : Settings) (line : String) : Access (Option Command) :=
  return Script.parseLine? (← keywords) s.commandTimeout 0 line.toList

def execute (s : Settings) (start : Nat) (tree : List Block) : Access Run.Outcome :=
  ofRun (Run.execute s start tree)

/-- Read a script, keep it as the current run and run it from a top-level step on. -/
def runScript (s : Settings) (script : String) (start : Nat) : Access Run.Outcome := do
  let tree ← parse s script
  ofStore (Store.setTree tree)
  ofStore Store.clearCursor
  ofStore (Store.setStopFlag false)
  execute s start tree

/-- Go on after the last step that ended; none when nothing is left to run. -/
def resume (s : Settings) : Access (Option Run.Outcome) := do
  let tree ← ofStore Store.tree
  let start := match ← ofStore Store.cursor with
    | some last => last + 1
    | none => 0
  if tree.length ≤ start then return none
  return some (← execute s start tree)

/-- Ask the run to end before its next step. -/
def stop : Access Unit := ofStore (Store.setStopFlag true)

end BrowserScript.Session
