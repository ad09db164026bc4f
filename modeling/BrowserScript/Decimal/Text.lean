import BrowserScript.Decimal.Binary
import BrowserScript.Text.Basic
import BrowserScript.Text.Letter

/-!
Texts of floats: always positional, with an exponent for extreme values, or read from decimal
notation.
-/

namespace BrowserScript.Decimal

def zeros (n : Nat) : String := String.ofList (List.replicate n '0')

/-- Positional notation without an exponent; whole numbers have no point. -/
def Digits.positional (d : Digits) : String :=
  let ds := toString d.digits
  if 0 ≤ d.exponent then ds ++ zeros d.exponent.toNat
  else
    let places := (-d.exponent).toNat
    if places < ds.length then
      String.ofList (ds.toList.take (ds.length - places)) ++ "."
        ++ String.ofList (ds.toList.drop (ds.length - places))
    else "0." ++ zeros (places - ds.length) ++ ds

/-- One digit, the others after a point, and a signed exponent of at least two digits. -/
def Digits.scientific (d : Digits) : String :=
  let ds := (toString d.digits).toList
  let exponent := d.exponent + (ds.length - 1 : Nat)
  let size := toString exponent.natAbs
  String.ofList (ds.take 1) ++ (if ds.length ≤ 1 then "" else "." ++ String.ofList (ds.drop 1))
    ++ (if exponent < 0 then "e-" else "e+") ++ (if size.length < 2 then "0" ++ size else size)

/-- A float in positional notation. -/
def plain (f : Float) : String :=
  match Parts.ofFloat f with
  | .notANumber => "NaN"
  | .infinite negative => if negative then "-inf" else "inf"
  | .finite negative m e =>
    (if negative then "-" else "") ++ (if m == 0 then "0" else (shortest m e).positional)

/-- A float without fractional part as an integer of 64 bits, the nearest one if it is out of
range; all others in positional notation. -/
def clamped (f : Float) : String :=
  match whole? f with
  | some n =>
    let bound : Nat := 1 <<< 63
    toString (max (-(bound : Int)) (min n ((bound : Int) - 1)))
  | none => plain f

/-- A finite float as it stands in a document: with a point or an exponent, and with an exponent
from 10^16 up and below 10^-5. -/
def documented? (f : Float) : Option String :=
  match Parts.ofFloat f with
  | .finite negative m e =>
    let d := shortest m e
    let point := d.exponent + (toString d.digits).length
    let body :=
      if m == 0 then "0.0"
      else if 0 ≤ d.exponent && point ≤ 16 then d.positional ++ ".0"
      else if -5 < point && point ≤ 16 then d.positional
      else d.scientific
    some ((if negative then "-" else "") ++ body)
  | _ => none

def digitsValue (ds : List Char) : Nat :=
  ds.foldl (fun n c => 10 * n + (c.toNat - 48)) 0

/-- The float nearest to `digits * 10 ^ exponent`. -/
def Digits.toFloat (d : Digits) : Float :=
  let magnitude := d.exponent + (toString d.digits).length
  if d.digits == 0 || magnitude < -400 then 0
  else if 400 < magnitude then nearest (1 <<< 1100) 1
  else if 0 ≤ d.exponent then nearest (d.digits * Nat.pow 10 d.exponent.toNat) 1
  else nearest d.digits (Nat.pow 10 (-d.exponent).toNat)

/-- A run of digits with its sign. -/
def exponent? (cs : List Char) : Option Int :=
  let (negative, ds) :=
    match cs with
    | '-' :: r => (true, r)
    | '+' :: r => (false, r)
    | r => (false, r)
  if ds.isEmpty || !ds.all Text.isAsciiDigit then none
  else if negative then some (-(digitsValue ds : Int)) else some (digitsValue ds)

/-- Unsigned decimal notation: digits around an optional point, at least one, then an optional
exponent. -/
def unsigned? (cs : List Char) : Option Float :=
  let int := cs.takeWhile Text.isAsciiDigit
  let rest := cs.dropWhile Text.isAsciiDigit
  let (frac, rest) :=
    match rest with
    | '.' :: r => (r.takeWhile Text.isAsciiDigit, r.dropWhile Text.isAsciiDigit)
    | r => ([], r)
  if int.isEmpty && frac.isEmpty then none
  else
    let value (e : Int) : Float :=
      Digits.toFloat ⟨digitsValue (int ++ frac), e - frac.length⟩
    match rest with
    | [] => some (value 0)
    | c :: r => if c == 'e' || c == 'E' then (exponent? r).map value else none

/-- Decimal notation, or the names of infinity and of no number, in any case. -/
def float? (cs : List Char) : Option Float :=
  let (negative, body) :=
    match cs with
    | '-' :: r => (true, r)
    | '+' :: r => (false, r)
    | r => (false, r)
  let size :=
    match String.ofList (body.map Text.asciiLower) with
    | "inf" | "infinity" => some (nearest (1 <<< 1100) 1)
    | "nan" => some (0.0 / 0.0)
    | _ => unsigned? body
  size.map fun f => if negative then -f else f

end BrowserScript.Decimal
