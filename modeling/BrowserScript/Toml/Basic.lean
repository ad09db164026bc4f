import BrowserScript.Json.Basic

/-!
Values of TOML documents and the rules by which headers and dotted keys put tables together: every
table is defined once, and dotted keys extend only tables that dotted keys made.
-/

namespace BrowserScript.Toml

/-- How a table came to be. -/
inductive Form
  /-- Written between braces. -/
  | inline
  /-- By a header of its own. -/
  | headed
  /-- As part of the path of another header. -/
  | implied
  /-- As part of a dotted key. -/
  | dotted
deriving DecidableEq, Repr

inductive Value
  | string (s : String)
  | integer (n : Int)
  | float (f : Float)
  | bool (b : Bool)
  /-- A date, a time or both. -/
  | moment (text : String)
  | array (items : List Value)
  | table (form : Form) (fields : List (String × Value))
  /-- Tables that each have a header in double brackets. -/
  | tables (rows : List (List (String × Value)))

abbrev Fields := List (String × Value)

namespace Fields

def get? (key : String) (fields : Fields) : Option Value :=
  (fields.find? (·.1 == key)).map (·.2)

def set (key : String) (v : Value) : Fields → Fields
  | [] => [(key, v)]
  | (k, old) :: rest => if k = key then (k, v) :: rest else (k, old) :: set key v rest

/-- Change the last row of an array of tables. -/
def onLast (f : Fields → Option Fields) : List Fields → Option (List Fields)
  | [] => none
  | [row] => (f row).map ([·])
  | row :: rest => (onLast f rest).map (row :: ·)

/-- Put a value under a dotted key. `free` tells whether the table may get keys of its own. -/
def put (free : Bool) (v : Value) : List String → Fields → Option Fields
  | [], _ => none
  | [key], fields =>
    if free && (fields.get? key).isNone then some (fields ++ [(key, v)]) else none
  | key :: path, fields =>
    match fields.get? key with
    | none => (put true v path []).map fun inner => fields ++ [(key, .table .dotted inner)]
    | some (.table .dotted inner) =>
      (put true v path inner).map fun inner => fields.set key (.table .dotted inner)
    | some (.table .implied inner) =>
      (put false v path inner).map fun inner => fields.set key (.table .implied inner)
    | some (.tables rows) =>
      (onLast (put false v path) rows).map fun rows => fields.set key (.tables rows)
    | some _ => none

/-- Change the table at the path of a header; tables on the way are made as needed. -/
def atPath (f : Fields → Option Fields) : List String → Fields → Option Fields
  | [], fields => f fields
  | key :: path, fields =>
    match fields.get? key with
    | none => (atPath f path []).map fun inner => fields ++ [(key, .table .implied inner)]
    | some (.table .inline _) => none
    | some (.table form inner) =>
      (atPath f path inner).map fun inner => fields.set key (.table form inner)
    | some (.tables rows) =>
      (onLast (atPath f path) rows).map fun rows => fields.set key (.tables rows)
    | some _ => none

/-- Begin the table of a header. -/
def beginTable (key : String) (fields : Fields) : Option Fields :=
  match fields.get? key with
  | none => some (fields ++ [(key, .table .headed [])])
  | some (.table .implied inner) => some (fields.set key (.table .headed inner))
  | some _ => none

/-- Begin another table of an array of tables. -/
def beginRow (key : String) (fields : Fields) : Option Fields :=
  match fields.get? key with
  | none => some (fields ++ [(key, .tables [[]])])
  | some (.tables rows) => some (fields.set key (.tables (rows ++ [[]])))
  | some _ => none

end Fields

/-- The name under which a date or time appears as the only field of an object. -/
def momentField : String := "$__toml_private_datetime"

mutual

def Value.toJson : Value → Json
  | .string s => .string s
  | .integer n => .int n
  | .float f => .float f
  | .bool b => .bool b
  | .moment text => .object [(momentField, .string text)]
  | .array items => .array (itemsJson items)
  | .table _ fields => .object (fieldsJson fields)
  | .tables rows => .array (rowsJson rows)

def itemsJson : List Value → List Json
  | [] => []
  | v :: rest => v.toJson :: itemsJson rest

def fieldsJson : List (String × Value) → Json.Fields
  | [] => []
  | (key, v) :: rest => (key, v.toJson) :: fieldsJson rest

def rowsJson : List (List (String × Value)) → List Json
  | [] => []
  | row :: rest => .object (fieldsJson row) :: rowsJson rest

end

end BrowserScript.Toml
