import BrowserScript.Json.Basic
import BrowserScript.Decimal.Text

/-!
Numbers of JSON documents. A number without point and exponent is an integer while it fits 64
bits. All others are floats: the digits are gathered into an integer below 2^64, those that no
longer fit are dropped, and the integer is scaled by one power of ten, or by several when the
exponent is below -308.
-/

namespace BrowserScript.Json

def maxWord : Nat := 1 <<< 64 - 1

/-- The parts of a number as written. -/
structure Lexeme where
  negative : Bool
  whole : List Char
  fraction : Option (List Char)
  exponent : Option (Bool × List Char)

/-- Split a number into its parts: no leading zero, and digits on both sides of a point and
after an exponent mark. -/
def Lexeme.ofChars? (cs : List Char) : Option Lexeme := do
  let (negative, cs) :=
    match cs with
    | '-' :: r => (true, r)
    | r => (false, r)
  let whole := cs.takeWhile Text.isAsciiDigit
  let rest := cs.dropWhile Text.isAsciiDigit
  if whole.isEmpty || (whole.head? == some '0' && whole.length != 1) then none
  let (fraction, rest) :=
    match rest with
    | '.' :: r => (some (r.takeWhile Text.isAsciiDigit), r.dropWhile Text.isAsciiDigit)
    | r => (none, r)
  if fraction == some [] then none
  match rest with
  | [] => some ⟨negative, whole, fraction, none⟩
  | e :: r =>
    if e != 'e' && e != 'E' then none
    let (minus, ds) :=
      match r with
      | '-' :: r => (true, r)
      | '+' :: r => (false, r)
      | r => (false, r)
    if ds.isEmpty || !ds.all Text.isAsciiDigit then none
    some ⟨negative, whole, fraction, some (minus, ds)⟩

/-- Gather digits while the number stays below 2^64. Also the digits left over. -/
def gather (n : Nat) : List Char → Nat × List Char
  | [] => (n, [])
  | c :: cs =>
    let next := 10 * n + (c.toNat - 48)
    if maxWord < next then (n, c :: cs) else gather next cs

/-- The power of ten as a float. -/
def power (n : Nat) : Float := Decimal.nearest (Nat.pow 10 n) 1

/-- Divide by a power of ten, by at most 10^308 at a time. -/
def scaleDown (f : Float) (n : Nat) : Float :=
  if 308 < n then
    if f == 0 then f else scaleDown (f / power 308) (n - 308)
  else f / power n
termination_by n
decreasing_by omega

/-- Scale by a power of ten. Numbers beyond the largest float are refused. -/
def scale (f : Float) (exponent : Int) : Option Float :=
  if 308 < exponent then
    if f == 0 then some f else none
  else if 0 ≤ exponent then
    let g := f * power exponent.toNat
    if g.isInf then none else some g
  else some (scaleDown f exponent.natAbs)

def Lexeme.float? (l : Lexeme) : Option Float := do
  let (n, dropped) := gather 0 l.whole
  let (n, places) :=
    match l.fraction with
    | none => (n, 0)
    | some ds =>
      let (n, left) := gather n ds
      (n, ds.length - left.length)
  let start : Int := (dropped.length : Int) - places
  let size : Float ←
    match l.exponent with
    | none => scale (Decimal.nearest n 1) start
    | some (minus, ds) =>
      let e := Decimal.digitsValue ds
      if e < 1 <<< 31 then
        let total := if minus then start - e else start + e
        scale (Decimal.nearest n 1) total
      else if minus || n == 0 then some 0 else none
  some (if l.negative then -size else size)

/-- The value of a number as written. -/
def number? (cs : List Char) : Option Json := do
  let l ← Lexeme.ofChars? cs
  let n := Decimal.digitsValue l.whole
  if l.fraction.isNone && l.exponent.isNone then
    if !l.negative && n ≤ maxWord then some (.int n)
    else if l.negative && n != 0 && n ≤ 1 <<< 63 then some (.int (-(n : Int)))
    else l.float?.map .float
  else l.float?.map .float

end BrowserScript.Json
