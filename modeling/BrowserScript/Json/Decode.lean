import BrowserScript.Json.Basic
import BrowserScript.Decimal.Binary

/-!
Reading typed values out of JSON. Types are strict: nothing is converted between texts, numbers
and truth values, and null stands for an absent value only where a value may be absent. A record
is read from an object, unknown fields being passed over, or from an array that lists its fields
in order.
-/

namespace BrowserScript.Json

abbrev Decoder (α : Type) := Json → Option α

def asBool : Decoder Bool
  | .bool b => some b
  | _ => none

def asString : Decoder String := string?

/-- A natural number below the bound. -/
def asNat (bound : Nat) : Decoder Nat
  | .int n => if 0 ≤ n ∧ n < bound then some n.toNat else none
  | _ => none

def asWord : Decoder Nat := asNat (1 <<< 64)

/-- An integer from -2^(bits-1) to 2^(bits-1) - 1. -/
def asInt (bits : Nat) : Decoder Int
  | .int n =>
    let bound : Nat := 1 <<< (bits - 1)
    if -(bound : Int) ≤ n ∧ n < bound then some n else none
  | _ => none

def asFloat : Decoder Float
  | .int n => some (if n < 0 then -Decimal.nearest n.natAbs 1 else Decimal.nearest n.natAbs 1)
  | .float f => some f
  | _ => none

/-- Null, or a value. -/
def orNull (decode : Decoder α) : Decoder (Option α)
  | .null => some none
  | j => (decode j).map some

def asList (decode : Decoder α) : Decoder (List α)
  | .array items => items.mapM decode
  | _ => none

/-- One of the names, given as a text or as the only field of an object that holds null. -/
def asName (named : String → Option α) : Decoder α
  | .string s => named s
  | .object [(name, .null)] => named name
  | _ => none

/-- The fields of a record in order, none for those left out. No field may be given twice, and
an array has at least `least` items and no more than there are fields. -/
def record (names : List String) (least : Nat) : Json → Option (List (Option Json))
  | .object fields =>
    if names.all fun name => (fields.filter (·.1 == name)).length ≤ 1 then
      some (names.map fun name => (fields.find? (·.1 == name)).map (·.2))
    else none
  | .array items =>
    if least ≤ items.length && items.length ≤ names.length then
      some (items.map some ++ List.replicate (names.length - items.length) none)
    else none
  | _ => none

/-- A field that must be there. -/
def required (decode : Decoder α) (j : Option Json) : Option α := j.bind decode

/-- A field that has a value when left out. -/
def withDefault (default : α) (decode : Decoder α) : Option Json → Option α
  | none => some default
  | some j => decode j

/-- A field that may be left out or null. -/
def optional (decode : Decoder α) : Option Json → Option (Option α) :=
  withDefault none (orNull decode)

/-- A map from texts; of two equal keys the later one counts. -/
def asMap (decode : Decoder α) : Decoder (List (String × α))
  | .object fields =>
    fields.reverse.foldlM (fun found (name, value) => do
      let a ← decode value
      some (if found.any (·.1 == name) then found else (name, a) :: found)) []
  | _ => none

/-! ## Single fields

Documents may also be read without being strict. A field that is null counts as missing, and one of
another kind than asked for does as well. -/

def given? (j : Json) (name : String) : Option Json :=
  match j.field? name with
  | some .null => none
  | found => found

def text? (j : Json) (name : String) : Option String := (j.given? name).bind string?

def text (j : Json) (name : String) : String := (j.text? name).getD ""

def natural? (j : Json) (name : String) : Option Nat := (j.given? name).bind asWord

def natural (j : Json) (name : String) (default : Nat) : Nat := (j.natural? name).getD default

def flag (j : Json) (name : String) (default : Bool) : Bool :=
  ((j.given? name).bind asBool).getD default

def toList : Json → List Json
  | .array xs => xs
  | _ => []

def items (j : Json) (name : String) : List Json := (j.field name).toList

def texts (j : Json) (name : String) : List String := (j.items name).filterMap string?

def fields : Json → Fields
  | .object fs => fs
  | _ => []

/-- The fields that are texts. -/
def textFields (j : Json) (name : String) : List (String × String) :=
  (j.field name).fields.filterMap fun (key, v) => v.string?.map (key, ·)

/-- The item at a place of an array. -/
def at_ (j : Json) (i : Nat) : Json := (j.toList[i]?).getD .null

end BrowserScript.Json
