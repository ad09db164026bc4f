import BrowserScript.Command.Action
import BrowserScript.Verification.Document

/-!
Actions as JSON documents.
-/

namespace BrowserScript.Action

/-- The fields that only some actions have. -/
def ownFields : Action → Json.Fields
  | .type _ value | .select _ value => [("value", .string value)]
  | .press key _ => [("key", .string key)]
  | .wait ms => [("ms", .string (toString ms))]
  | .navigate url => [("url", .string url)]
  | .under heading => [("heading", Json.ofOption .string heading)]
  | .unsupported _ => [("unsupported", .bool true)]
  | .noop => [("noop", .bool true)]
  | .verify v => [("verification", v.toJson)]
  | .click _ | .mouseover _ => []

def toJson (a : Action) : Json :=
  .object (("name", .string a.name) :: ("locator", Json.ofOption .string a.locator)
    :: a.ownFields)

end BrowserScript.Action

namespace BrowserScript.Command

/-- The parts of a command as they are read for an action. -/
def partFields (c : Command) : Json.Fields :=
  [("verb", Json.ofOption .string c.verb), ("isVerify", .bool c.isVerify),
    ("inIndex", Json.ofOption .ofNat c.inIndex), ("operand", Json.ofOption .string c.operand),
    ("locator", Json.ofOption .string c.locator), ("value", Json.ofOption .string c.value),
    ("quoted", .array (c.quotedLiterals.map .string))]

end BrowserScript.Command
