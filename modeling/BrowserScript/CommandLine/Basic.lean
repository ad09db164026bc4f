import BrowserScript.DevTools.Client
import BrowserScript.DevTools.Page
import BrowserScript.Session.Scene
import BrowserScript.Store.File

/-!
What the commands of the command line work with: the network, files, a console with its
environment, and a session on a page of a browser.
-/

namespace BrowserScript.CommandLine

inductive Severity
  | info | warn | error
deriving DecidableEq, Repr

def Severity.word : Severity → String
  | .info => "INFO"
  | .warn => "WARN"
  | .error => "ERROR"

namespace Console

inductive Request
  | print (text : String)
  | log (severity : Severity) (text : String)
  /-- An identity that was never used. -/
  | identity
  /-- The time of day as a text. -/
  | time
  /-- The value of a variable of the environment. -/
  | valueOf (name : String)

def Request.Result : Request → Type
  | .print _ | .log .. => Unit
  | .identity | .time => String
  | .valueOf _ => Option String

def signature : Signature := ⟨Request, Request.Result⟩

end Console

/-- What a command can ask. -/
abbrev signature : Signature :=
  (DevTools.network.sum DevTools.links).sum
    (Store.File.signature.sum (Console.signature.sum Session.bookkeeping))

/-- A session on a page, with its state in a file. -/
structure Place where
  settings : Settings
  statePath : String
  attachment : DevTools.Attachment

inductive Job
  | listen (connection : Nat)
  | session (place : Place) (j : Session.Job)

abbrev surroundings : Signature := Tasks.full signature Job

/-- Why a command failed, and what caused that, the nearest cause first. -/
structure Fault where
  message : String
  causes : List String := []
deriving DecidableEq, Repr

/-- A program of a command, which ends with the first fault. -/
abbrev Access (α : Type) : Type := ExceptT Fault (Prog surroundings) α

def orFault (fault : ε → Fault) (p : Prog surroundings (Except ε α)) : Access α := ExceptT.mk do
  match ← p with
  | .ok a => return .ok a
  | .error e => return .error (fault e)

def ioCause : Store.Error → List String
  | .io text => [text]
  | _ => []

def Fault.ofStore (e : Store.Error) : Fault := ⟨e.message, ioCause e⟩

def Fault.ofSession (e : Session.Error) : Fault :=
  match e with
  | .store inner => ⟨e.message, inner.message :: ioCause inner⟩
  | _ => ⟨e.message, []⟩

def Fault.ofBrowser (e : DevTools.Error) : Fault :=
  match e with
  | .serialization text => ⟨e.message, [text]⟩
  | _ => ⟨e.message, []⟩

/-- The lines that tell a fault. Several causes are numbered. -/
def Fault.toText (f : Fault) : String :=
  let causes :=
    match f.causes with
    | [] => []
    | [cause] => ["", "Caused by:", "    " ++ cause]
    | causes => "" :: "Caused by:"
        :: causes.zipIdx.map fun (cause, i) => "    " ++ toString i ++ ": " ++ cause
  "\n".intercalate (("Error: " ++ f.message) :: causes)

def onConsole (r : Console.Request) : Prog surroundings r.Result :=
  (Prog.request (S := Console.signature) r).within

def print (text : String) : Prog surroundings Unit := onConsole (.print text)

def printLine (text : String) : Prog surroundings Unit := print (text ++ "\n")

def log (severity : Severity) (text : String) : Prog surroundings Unit :=
  onConsole (.log severity text)

def onFiles (a : Store.File.Access α) : Access α :=
  orFault Fault.ofStore (a.run : Prog Store.File.signature (Except Store.Error α)).within

/-! ## Sessions on a page of a browser -/

namespace Place

/-- Answer what a session asks. -/
def answer (p : Place) :
    (r : Session.surroundings.Request) → Prog surroundings (Session.surroundings.Answer r)
  | .inl (.inl r) =>
    (DevTools.Link.overConnection p.attachment.connection (p.attachment.tab.serve r).run).within
  | .inl (.inr (.inl r)) =>
    ((Store.File.serve p.statePath r).run : Prog Store.File.signature _).within
  | .inl (.inr (.inr r)) => (Prog.request (S := Session.bookkeeping) r).within
  | .inr (.clock r) => (Prog.request (S := clock) r).within
  | .inr .pause => Tasks.pause Job
  | .inr (.start j) => Tasks.start (Job.session p j)
  | .inr (.gather js) => Tasks.gather (js.map (Job.session p))

def run (p : Place) (a : Session.Access α) : Access α :=
  orFault Fault.ofSession ((a.run : Session.Program (Except Session.Error α)).run p.answer)

end Place

def Job.code : Job → Prog surroundings (Option Job)
  | .listen connection => do
    let goOn ← (DevTools.Link.listen connection : Prog DevTools.Link.surroundings Bool)
    return if goOn then some (.listen connection) else none
  | .session p j => return (← (j.code p.settings).run p.answer).map (.session p)

end BrowserScript.CommandLine
