import BrowserScript.Json.Decode
import BrowserScript.Verification.Probe

/-!
Verifications and what checks of them find, as JSON documents.
-/

namespace BrowserScript

namespace Verification

/-- The fields that the form of a verification has. -/
def formFields : Verification → Json.Fields
  | .text op expected _ =>
    [("form", .string "text"), ("operator", .string op.word), ("expected", .string expected)]
  | .attribute _ op expected _ =>
    [("form", .string "attribute"), ("operator", .string op.word), ("expected", .string expected)]
  | .state s _ => [("form", .string "state"), ("state", .string s.word)]
  | .page target op expected =>
    [("form", .string "page"), ("target", .string target.word), ("operator", .string op.word),
      ("expected", .string expected)]

def toJson (v : Verification) : Json :=
  .object (("type", .string v.subject.word) :: ("locator", Json.ofOption .string v.locator)
    :: v.formFields)

/-- What was seen is left out where nothing was. -/
def Outcome.toJson (o : Outcome) : Json :=
  .ofFields [("actualValue", o.actual.map .string), ("message", some (.string o.message)),
    ("success", some (.bool o.success))]

end Verification

def Observation.word : Observation → String
  | .satisfied _ => "satisfied"
  | .unmet _ => "unmet"
  | .gone _ => "gone"

def Probe.Category.word : Probe.Category → String
  | .text => "text"
  | .attribute => "attribute"
  | .state => "state"
  | .page => "page"

/-- The probe of a document for the element that it names. One for no element is meant where the
document names none. -/
def Probe.ofJson? (j : Json) (el : Option Page.Handle) : Option Probe :=
  let op := (Operator.named? (j.text "operator")).getD .contains
  let expected := j.text "expected"
  match j.text "kind" with
  | "text" => el.map fun el => .text el op expected
  | "attribute" => do
    some (.attribute (← el) (← Subject.named? (j.text "attribute")) op expected (j.text "locator"))
  | "state" =>
    if (j.given? "el").isSome && el.isNone then none
    else (ElementState.parse? (j.text "state")).map (.state el)
  | _ => some (.page (if j.text "target" == "url" then .url else .title) op expected)

/-- An observation with the probe that made it. -/
def Observation.toJson (o : Observation) (p : Probe) : Json :=
  .object [("observation", .string o.word), ("result", o.outcome.toJson),
    ("category", .string p.category.word)]

end BrowserScript
