/-!
JSON values. Objects keep the order and the repetitions of their fields; `canonical` sorts the
fields by name and keeps the last of each name.
-/

namespace BrowserScript

inductive Json
  | null
  | bool (b : Bool)
  /-- A whole number written without point and exponent, from -2^63 to 2^64 - 1. -/
  | int (n : Int)
  | float (f : Float)
  | string (s : String)
  | array (items : List Json)
  | object (fields : List (String × Json))
deriving Inhabited

namespace Json

abbrev Fields := List (String × Json)

/-- Put a field where its name belongs, in place of an earlier one of that name. -/
def insertField (name : String) (value : Json) : Fields → Fields
  | [] => [(name, value)]
  | (n, v) :: rest =>
    if name = n then (name, value) :: rest
    else if name < n then (name, value) :: (n, v) :: rest
    else (n, v) :: insertField name value rest

def sortFields (fields : Fields) : Fields :=
  fields.foldl (fun sorted (name, value) => insertField name value sorted) []

mutual

/-- The same value with the fields of every object sorted by name. -/
def canonical : Json → Json
  | .array items => .array (canonicalItems items)
  | .object fields => .object (sortFields (canonicalFields fields))
  | other => other

def canonicalItems : List Json → List Json
  | [] => []
  | item :: rest => canonical item :: canonicalItems rest

def canonicalFields : Fields → Fields
  | [] => []
  | (name, value) :: rest => (name, canonical value) :: canonicalFields rest

end

/-- The value of the last field of that name. -/
def field? (name : String) : Json → Option Json
  | .object fields => (fields.reverse.find? (·.1 == name)).map (·.2)
  | _ => none

/-- The value of the field, null when there is none. -/
def field (j : Json) (name : String) : Json := (j.field? name).getD .null

def string? : Json → Option String
  | .string s => some s
  | _ => none

/-- An object of the fields that have a value. -/
def ofFields (fields : List (String × Option Json)) : Json :=
  .object (fields.filterMap fun (name, value) => value.map (name, ·))

def ofOption (encode : α → Json) : Option α → Json
  | some a => encode a
  | none => .null

def ofNat (n : Nat) : Json := .int n

end Json

end BrowserScript
