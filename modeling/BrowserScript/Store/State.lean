import BrowserScript.Command.Document
import BrowserScript.Json.Printer
import BrowserScript.Json.Reader
import BrowserScript.Keyword.Basic

/-!
The state that outlives a page: keyword tables, the command tree of the last run, how far it came,
and whether it was asked to stop. A document that is no state is read as the empty state.
-/

namespace BrowserScript

namespace Store

structure State where
  keywords : KeywordTables := {}
  /-- The last top-level command that ended. -/
  cursor : Option Nat := none
  stop : Bool := false
  tree : List Block := []

namespace State

def toJson (s : State) : Json :=
  .object (s.keywords.toFields ++
    [("herbiestartline", Json.ofOption .ofNat s.cursor), ("herbie_stop", .bool s.stop),
      ("cmdtree", .array (Block.toJsonAll s.tree))])

def fieldNames : List String :=
  ["globalKeywords", "localKeywords", "herbiestartline", "herbie_stop", "cmdtree"]

def ofJson? (j : Json) : Option State := do
  let .object fields := j | none
  match ← Json.record fieldNames 0 (.object fields) with
  | [shared, domains, cursor, stop, tree] =>
    some {
      keywords := ← KeywordTables.ofFields? shared domains
      cursor := ← Json.optional Json.asWord cursor
      stop := ← Json.withDefault false Json.asBool stop
      tree := ← Json.withDefault [] Block.listOfJson? tree }
  | _ => none

def toText (s : State) : String := s.toJson.pretty

def ofText (text : String) : State := ((Json.parse? text).bind ofJson?).getD {}

end State

inductive Error
  | storage (text : String)
  | serialization (text : String)
  | io (text : String)
deriving DecidableEq, Repr, Inhabited

/-- The kind of an error, for programs. -/
def Error.kind : Error → String
  | .storage _ => "StorageError"
  | .serialization _ => "SerializationError"
  | .io _ => "Io"

def Error.message : Error → String
  | .storage text => "Storage error: " ++ text
  | .serialization text => "Serialization error: " ++ text
  | .io text => "IO error: " ++ text

end Store

end BrowserScript
