import BrowserScript.Command.Basic
import BrowserScript.Decimal.Text

/-!
The action a command stands for, or why it stands for none.
-/

namespace BrowserScript

inductive Action
  | click (locator : String)
  | type (locator value : String)
  | select (locator value : String)
  | press (key : String) (locator : Option String)
  | mouseover (locator : String)
  | wait (milliseconds : Nat)
  | navigate (url : String)
  | verify (verification : Verification)
  | under (heading : Option String)
  | unsupported (verb : String)
  | noop
deriving DecidableEq, Repr

namespace Action

def name : Action → String
  | .click .. => "click"
  | .type .. => "type"
  | .select .. => "select"
  | .press .. => "press"
  | .mouseover .. => "mouseover"
  | .wait .. => "wait"
  | .navigate .. => "navigate"
  | .verify .. => "verify"
  | .under .. => "under"
  | .unsupported verb => verb
  | .noop => "noop"

def locator : Action → Option String
  | .click locator | .type locator _ | .select locator _ | .mouseover locator => some locator
  | .press _ locator => locator
  | .verify v => v.locator
  | _ => none

end Action

namespace Command

inductive Error
  | invalidOperand (verb operand : String)
  | missingValue (verb : String)
  | missingLocator (verb : String)
  | unknownOperator (operator : String)
deriving DecidableEq, Repr

/-- The kind of an error, for programs. -/
def Error.kind : Error → String
  | .invalidOperand .. => "InvalidOperand"
  | .missingValue _ => "MissingValue"
  | .missingLocator _ => "MissingLocator"
  | .unknownOperator _ => "UnknownOperator"

def Error.message : Error → String
  | .invalidOperand verb operand => "Invalid operand for '" ++ verb ++ "': " ++ operand
  | .missingValue verb => "Missing value for '" ++ verb ++ "'"
  | .missingLocator verb => "Missing locator for '" ++ verb ++ "'"
  | .unknownOperator operator => "Unknown operator: " ++ operator

/-- An operator that compares texts. -/
def comparison (op : Operator) : Except Error Operator :=
  match op with
  | .is => .error (.unknownOperator op.word)
  | op => .ok op

def orError (e : Error) : Option α → Except Error α
  | some a => .ok a
  | none => .error e

/-- The verification a command asks for. Fields that the line did not give fall back on its
words: the locator on the operand, the expected text on the value. -/
def verification (c : Command) : Except Error Verification := do
  let locator := c.verifyLocator <|> c.locator
  let expected := c.verifyExpected <|> c.value
  let operator := c.verifyOperator.getD .contains
  let missing := Error.missingValue "verify"
  match c.verifyType.getD .text with
  | .state =>
    let raw ← orError missing expected
    let state ← orError (.invalidOperand "verify" raw) (ElementState.parse? raw)
    return .state state locator
  | .text => return .text (← comparison operator) (← orError missing expected) locator
  | .url => return .page .url (← comparison operator) (← orError missing expected)
  | .title =>
    let operator ← comparison operator
    let expected ← orError missing expected
    return if locator.isNone then .page .title operator expected
      else .attribute .title operator expected locator
  | subject =>
    return .attribute subject (← comparison operator) (← orError missing expected) locator

def neededLocator (c : Command) (verb : String) : Except Error String :=
  orError (.missingLocator verb) (c.locator.filter (· != ""))

/-- A number of milliseconds below 2^64, with an optional plus sign. -/
def milliseconds? (word : String) : Option Nat :=
  let ds :=
    match word.toList with
    | '+' :: r => r
    | r => r
  if ds.isEmpty || !ds.all Text.isAsciiDigit then none
  else
    let n := Decimal.digitsValue ds
    if n < 1 <<< 64 then some n else none

def action (c : Command) : Except Error Action :=
  match c.verb with
  | none => .ok .noop
  | some verb =>
    match verb with
    | "click" => return .click (← c.neededLocator verb)
    | "type" =>
      return .type (← c.neededLocator verb) (← orError (.missingValue verb) c.value)
    | "select" =>
      return .select (← c.neededLocator verb) (← orError (.missingValue verb) c.value)
    | "mouseover" =>
      let locator := (c.locator <|> c.quotedLiterals.head?).filter (· != "")
      return .mouseover (← orError (.missingLocator verb) locator)
    | "press" => return .press (← orError (.missingValue verb) c.value) c.locator
    | "wait" =>
      let raw := (c.code[1]?).getD ""
      return .wait (← orError (.invalidOperand verb raw) (milliseconds? raw))
    | "navigate" | "open" =>
      return .navigate (← orError (.missingValue verb) c.quotedLiterals.head?)
    | "verify" => c.verification.map .verify
    | "under" => .ok (.under c.quotedLiterals.head?)
    | other => .ok (.unsupported other)

end Command

end BrowserScript
