import BrowserScript.Toml.Scalar

/-!
Reading TOML documents: values, keys, and the lines of a document. Values nest less than 80 deep
and dotted keys have less than 80 parts.
-/

namespace BrowserScript.Toml

open Text (loop)

def depthLimit : Nat := 80

def isBareKeyChar (c : Char) : Bool :=
  Text.isAsciiLetter c || Text.isAsciiDigit c || c == '-' || c == '_'

def simpleKey? (cs : List Char) : Option (String × List Char) :=
  match cs.takeWhile isBareKeyChar with
  | [] => (quoted? cs).map fun (k, r) => (String.ofList k, r)
  | k => some (String.ofList k, cs.dropWhile isBareKeyChar)

/-- Simple keys joined by dots, with spaces around them. -/
def key? (cs : List Char) : Option (List String × List Char) := do
  let (first, cs) ← simpleKey? (cs.dropWhile isSpace)
  let (keys, cs) ← loop (fun keys cs =>
    match cs.dropWhile isSpace with
    | '.' :: r => (simpleKey? (r.dropWhile isSpace)).map fun (k, r) => some (keys ++ [k], r)
    | _ => some none) [first] cs
  if keys.length < depthLimit then some (keys, cs.dropWhile isSpace) else none

/-- Skip a comment; what follows has to be a line end. -/
def skipComment (cs : List Char) : List Char :=
  match cs with
  | '#' :: r => r.dropWhile isLineChar
  | cs => cs

/-- Spaces, comments and line ends between the items of an array. -/
def skipLines (cs : List Char) : List Char :=
  match loop (fun () cs =>
    let rest := skipComment (cs.dropWhile isSpace)
    match newline? rest with
    | some r => some (some ((), r))
    | none => some none) () cs with
  | some ((), rest) => rest.dropWhile isSpace
  | none => cs

def keyValue (value : Reader Value) (cs : List Char) :
    Option ((List String × Value) × List Char) := do
  let (path, cs) ← key? cs
  match cs with
  | '=' :: cs =>
    let (v, cs) ← value (cs.dropWhile isSpace)
    some ((path, v), cs.dropWhile isSpace)
  | _ => none

/-- The items of an array up to its closing bracket. A comma may follow the last one. -/
def arrayItems (value : Reader Value) : Reader Value := fun cs => do
  let (items, cs) ← loop (fun (items, ended) cs =>
    if ended then some none
    else
      match skipLines cs with
      | ']' :: r => some (some ((items, true), r))
      | cs =>
        match value cs with
        | none => none
        | some (v, cs) =>
          match skipLines cs with
          | ',' :: r => some (some ((items ++ [v], false), r))
          | ']' :: r => some (some ((items ++ [v], true), r))
          | _ => none) (([] : List Value), false) cs
  if items.2 then some (.array items.1, cs) else none

/-- The fields of a table between braces, on one line. -/
def inlineFields (value : Reader Value) : Reader Value := fun cs => do
  match cs.dropWhile isSpace with
  | '\x7d' :: r => some (.table .inline [], r)
  | cs =>
    let ((fields, _), cs) ← loop (fun (fields, ended) cs =>
      if ended then some none
      else
        match keyValue value cs with
        | none => none
        | some ((path, v), cs) =>
          match Fields.put true v path fields, cs with
          | some fields, ',' :: r => some (some ((fields, false), r))
          | some fields, '\x7d' :: r => some (some ((fields, true), r))
          | _, _ => none) (([] : Fields), false) cs
    some (.table .inline fields, cs)

/-- A value in which others nest less than `depth` deep. -/
def value : Nat → Reader Value
  | 0 => fun _ => none
  | depth + 1 => fun
    | '[' :: cs => if depth = 0 then none else arrayItems (value depth) cs
    | '\x7b' :: cs => if depth = 0 then none else inlineFields (value depth) cs
    | cs =>
      match string? cs with
      | some (s, r) => some (.string (String.ofList s), r)
      | none =>
        if cs.head?.any fun c => c == '"' || c == '\'' then none else bare? cs

/-! ## Lines -/

/-- A document read so far, and the header its next keys belong to. -/
structure Draft where
  root : Fields := []
  header : List String := []

def Draft.assign (d : Draft) (path : List String) (v : Value) : Option Draft :=
  (Fields.atPath (Fields.put true v path) d.header d.root).map fun root => { d with root }

/-- Begin what a header names. -/
def Draft.beginAt (d : Draft) (begin_ : String → Fields → Option Fields) (path : List String) :
    Option Draft := do
  let key ← path.getLast?
  let root ← Fields.atPath (begin_ key) path.dropLast d.root
  some ⟨root, path⟩

def header (d : Draft) (cs : List Char) : Option (Draft × List Char) :=
  match cs with
  | '[' :: '[' :: r =>
    match key? r with
    | some (path, ']' :: ']' :: r) => (d.beginAt Fields.beginRow path).map (·, r)
    | _ => none
  | '[' :: r =>
    match key? r with
    | some (path, ']' :: r) => (d.beginAt Fields.beginTable path).map (·, r)
    | _ => none
  | _ => none

/-- What stands in a line, without its comment. -/
def line (d : Draft) (cs : List Char) : Option (Draft × List Char) :=
  match cs with
  | [] | '#' :: _ | '\n' :: _ | '\r' :: _ => some (d, cs)
  | '[' :: _ => header d cs
  | _ => do
    let ((path, v), cs) ← keyValue (value depthLimit) cs
    (d.assign path v).map (·, cs)

/-- A document: lines with comments. A byte order mark may stand in front. -/
def parse? (text : String) : Option Value := do
  let cs :=
    match text.toList with
    | '\ufeff' :: r => r
    | cs => cs
  let (d, rest) ← loop (fun (d : Draft) cs =>
    match cs with
    | [] => some none
    | cs => do
      let (d, cs) ← line d (cs.dropWhile isSpace)
      let cs := skipComment (cs.dropWhile isSpace)
      match cs with
      | [] => some (some (d, []))
      | cs => (newline? cs).map fun r => some (d, r)) {} cs
  if rest.isEmpty then some (.table .headed d.root) else none

end BrowserScript.Toml
