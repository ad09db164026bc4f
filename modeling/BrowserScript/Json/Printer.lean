import BrowserScript.Json.Basic
import BrowserScript.Decimal.Text

/-!
Writing JSON: compact, without blanks, and spread over lines with two spaces a level. Quotes,
backslashes and control characters are escaped, all else stands as it is. Floats that are not
finite are written as null.
-/

namespace BrowserScript.Json

def hexChar (n : Nat) : Char :=
  if n < 10 then Char.ofNat (48 + n) else Char.ofNat (87 + n)

def escape (c : Char) : List Char :=
  match c with
  | '"' => ['\\', '"']
  | '\\' => ['\\', '\\']
  | '\x08' => ['\\', 'b']
  | '\x0c' => ['\\', 'f']
  | '\n' => ['\\', 'n']
  | '\r' => ['\\', 'r']
  | '\t' => ['\\', 't']
  | c =>
    if c.toNat < 0x20 then ['\\', 'u', '0', '0', hexChar (c.toNat / 16), hexChar (c.toNat % 16)]
    else [c]

def quote (s : String) : String :=
  String.ofList ('"' :: s.toList.foldr (fun c rest => escape c ++ rest) ['"'])

def scalarText : Json → String
  | .bool b => if b then "true" else "false"
  | .int n => toString n
  | .float f => (Decimal.documented? f).getD "null"
  | .string s => quote s
  | _ => "null"

mutual

/-- Without blanks. -/
def compact : Json → String
  | .array items => "[" ++ compactItems items ++ "]"
  | .object fields => "\x7b" ++ compactFields fields ++ "\x7d"
  | other => scalarText other

def compactItems : List Json → String
  | [] => ""
  | [item] => compact item
  | item :: rest => compact item ++ "," ++ compactItems rest

def compactFields : Fields → String
  | [] => ""
  | [(name, value)] => quote name ++ ":" ++ compact value
  | (name, value) :: rest =>
    quote name ++ ":" ++ compact value ++ "," ++ compactFields rest

end

def newline (level : Nat) : String := "\n" ++ String.ofList (List.replicate (2 * level) ' ')

mutual

/-- One item or field a line, two spaces further in at each level. -/
def prettyAt (level : Nat) : Json → String
  | .array [] => "[]"
  | .array (item :: rest) =>
    "[" ++ prettyItems (level + 1) (item :: rest) ++ newline level ++ "]"
  | .object [] => "\x7b\x7d"
  | .object (field :: rest) =>
    "\x7b" ++ prettyFields (level + 1) (field :: rest) ++ newline level ++ "\x7d"
  | other => scalarText other

def prettyItems (level : Nat) : List Json → String
  | [] => ""
  | [item] => newline level ++ prettyAt level item
  | item :: rest => newline level ++ prettyAt level item ++ "," ++ prettyItems level rest

def prettyFields (level : Nat) : Fields → String
  | [] => ""
  | [(name, value)] => newline level ++ quote name ++ ": " ++ prettyAt level value
  | (name, value) :: rest =>
    newline level ++ quote name ++ ": " ++ prettyAt level value ++ "," ++ prettyFields level rest

end

def pretty (j : Json) : String := prettyAt 0 j

end BrowserScript.Json
