import BrowserScript.Program.Basic
import BrowserScript.Store.State

/-!
What the state can be asked, and what it answers when it is kept in memory.
-/

namespace BrowserScript.Store

inductive Request
  | cursor
  | setCursor (line : Nat)
  | clearCursor
  | stopFlag
  | setStopFlag (stop : Bool)
  | tree
  | setTree (tree : List Block)
  | sharedKeywords
  | domainKeywords (domain : String)

def Request.name : Request → String
  | .cursor => "cursor"
  | .setCursor _ => "set_cursor"
  | .clearCursor => "clear_cursor"
  | .stopFlag => "stop_flag"
  | .setStopFlag _ => "set_stop_flag"
  | .tree => "command_tree"
  | .setTree _ => "set_command_tree"
  | .sharedKeywords => "global_keywords"
  | .domainKeywords _ => "local_keywords"

def Request.Result : Request → Type
  | .cursor => Option Nat
  | .stopFlag => Bool
  | .tree => List Block
  | .sharedKeywords | .domainKeywords _ => List Keyword
  | .setCursor _ | .clearCursor | .setStopFlag _ | .setTree _ => Unit

/-- How a request changes the state; none if it only reads. -/
def Request.change? : Request → Option (State → State)
  | .setCursor line => some fun s => { s with cursor := some line }
  | .clearCursor => some fun s => { s with cursor := none }
  | .setStopFlag stop => some fun s => { s with stop }
  | .setTree blocks => some fun s => { s with tree := blocks }
  | _ => none

/-- What a request finds in a state. -/
def Request.find (s : State) : (r : Request) → r.Result
  | .cursor => s.cursor
  | .stopFlag => s.stop
  | .tree => s.tree
  | .sharedKeywords => s.keywords.shared
  | .domainKeywords domain => s.keywords.ofDomain domain
  | .setCursor _ | .clearCursor | .setStopFlag _ | .setTree _ => ()

def signature : Signature := ⟨Request, fun r => Except Error r.Result⟩

/-- A program over the state that ends with the first error. -/
abbrev Access (α : Type) : Type := ExceptT Error (Prog signature) α

def ask (r : Request) : Access r.Result := ExceptT.mk (Prog.request (S := signature) r)

def cursor : Access (Option Nat) := ask .cursor

def setCursor (line : Nat) : Access Unit := ask (.setCursor line)

def clearCursor : Access Unit := ask .clearCursor

def stopFlag : Access Bool := ask .stopFlag

def setStopFlag (stop : Bool) : Access Unit := ask (.setStopFlag stop)

def tree : Access (List Block) := ask .tree

def setTree (tree : List Block) : Access Unit := ask (.setTree tree)

def sharedKeywords : Access (List Keyword) := ask .sharedKeywords

def domainKeywords (domain : String) : Access (List Keyword) := ask (.domainKeywords domain)

/-! ## In memory -/

def serve (r : Request) : StateM State (Except Error r.Result) := do
  modify (r.change?.getD id)
  return .ok (r.find (← get))

end BrowserScript.Store
