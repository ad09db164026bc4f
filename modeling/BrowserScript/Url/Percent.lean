import BrowserScript.Text.Basic

/-!
Percent-encoding: each byte of a character of the set becomes a percent sign and two hex digits.
-/

namespace BrowserScript.Url

def hexUpper (n : Nat) : Char := if n < 10 then Char.ofNat (48 + n) else Char.ofNat (55 + n)

def encodeByte (b : UInt8) : List Char :=
  ['%', hexUpper (b.toNat / 16), hexUpper (b.toNat % 16)]

def bytesOf (c : Char) : List UInt8 := (String.ofList [c]).toUTF8.toList

def encodeChar (set : Char → Bool) (c : Char) : List Char :=
  if set c then (bytesOf c).flatMap encodeByte else [c]

def percentEncode (set : Char → Bool) (cs : List Char) : List Char := cs.flatMap (encodeChar set)

/-- Controls and all that is not ASCII. -/
def controlSet (c : Char) : Bool := c.toNat < 0x20 || 0x7F ≤ c.toNat

def isOneOf (text : String) (c : Char) : Bool := text.toList.contains c

def fragmentSet (c : Char) : Bool := controlSet c || isOneOf " \"<>`" c

def querySet (c : Char) : Bool := controlSet c || isOneOf " \"#<>" c

def specialQuerySet (c : Char) : Bool := querySet c || c == '\''

def pathSet (c : Char) : Bool := fragmentSet c || isOneOf "#?\x7b\x7d" c

def userinfoSet (c : Char) : Bool := pathSet c || isOneOf "/:;=@[\\]^|" c

def hexDigit? (c : Char) : Option Nat :=
  if '0' ≤ c ∧ c ≤ '9' then some (c.toNat - 48)
  else if 'a' ≤ c ∧ c ≤ 'f' then some (c.toNat - 87)
  else if 'A' ≤ c ∧ c ≤ 'F' then some (c.toNat - 55)
  else none

/-- The bytes of a text whose percent signs with two hex digits stand for bytes. -/
def percentDecode : List Char → List UInt8
  | '%' :: a :: b :: rest =>
    match hexDigit? a, hexDigit? b with
    | some x, some y => (16 * x + y).toUInt8 :: percentDecode rest
    | _, _ => 0x25 :: percentDecode (a :: b :: rest)
  | c :: rest => bytesOf c ++ percentDecode rest
  | [] => []
termination_by cs => cs.length

end BrowserScript.Url
