import BrowserScript.Command.Basic
import BrowserScript.Json.Decode

/-!
Commands in JSON documents.
-/

namespace BrowserScript.Block

def fieldNames : List String :=
  ["line", "code", "src", "timeout", "subcommands", "verifyType", "verifyOperator",
    "verifyExpected", "verifyLocator", "verifyTarget", "header"]

mutual

/-- Fields without a value are left out. -/
def toJson : Block → Json
  | .node c body =>
    .ofFields [("line", some (.ofNat c.line)), ("code", some (.array (c.code.map .string))),
      ("src", some (.string c.src)), ("timeout", some (.ofNat c.timeout)),
      ("subcommands", some (.array (toJsonAll body))),
      ("verifyType", c.verifyType.map fun t => .string t.word),
      ("verifyOperator", c.verifyOperator.map fun o => .string o.word),
      ("verifyExpected", c.verifyExpected.map .string),
      ("verifyLocator", c.verifyLocator.map .string),
      ("verifyTarget", c.verifyTarget.map .string), ("header", c.header.map .string)]

def toJsonAll : List Block → List Json
  | [] => []
  | b :: rest => toJson b :: toJsonAll rest

end

/-- Read a command whose document nests at most `depth` deep. -/
def ofJsonAt : Nat → Json → Option Block
  | 0, _ => none
  | depth + 1, j => do
    let fields ← Json.record fieldNames 4 j
    match fields with
    | [line, code, src, timeout, body, type, operator, expected, locator, target, header] =>
      let command : Command := {
        line := ← Json.required Json.asWord line
        code := ← Json.required (Json.asList Json.asString) code
        src := ← Json.required Json.asString src
        timeout := ← Json.required Json.asWord timeout
        verifyType := ← Json.optional (Json.asName Subject.named?) type
        verifyOperator := ← Json.optional (Json.asName Operator.named?) operator
        verifyExpected := ← Json.optional Json.asString expected
        verifyLocator := ← Json.optional Json.asString locator
        verifyTarget := ← Json.optional Json.asString target
        header := ← Json.optional Json.asString header }
      let body ← Json.withDefault [] (Json.asList (ofJsonAt depth)) body
      some (.node command body)
    | _ => none

/-- Documents nest at most 127 deep, and each command takes at least one level. -/
def ofJson? (j : Json) : Option Block := ofJsonAt 128 j

def listOfJson? : Json → Option (List Block) := Json.asList ofJson?

end BrowserScript.Block
