/-!
Floats as exact binary fractions, the float nearest to a quotient of natural numbers, and the
shortest decimal text of a float: the fewest digits that read back as the same float, and of those
the nearest to it, a tie going up.
-/

namespace BrowserScript.Decimal

/-- A float taken apart: a sign and, when finite, the value `mantissa * 2 ^ exponent`. -/
inductive Parts
  | finite (negative : Bool) (mantissa : Nat) (exponent : Int)
  | infinite (negative : Bool)
  | notANumber

def Parts.ofFloat (f : Float) : Parts :=
  let bits := f.toBits.toNat
  let negative := bits >>> 63 == 1
  let biased : Nat := bits >>> 52 % (1 <<< 11)
  let fraction : Nat := bits % (1 <<< 52)
  if biased == 2047 then
    if fraction == 0 then .infinite negative else .notANumber
  else if biased == 0 then .finite negative fraction (-1074)
  else .finite negative (1 <<< 52 + fraction) ((biased : Int) - 1075)

/-- The integer a float stands for when it has no fractional part. -/
def whole? (f : Float) : Option Int :=
  match Parts.ofFloat f with
  | .finite negative m e =>
    let sign : Int → Int := fun n => if negative then -n else n
    if 0 ≤ e then some (sign (m <<< e.toNat : Nat))
    else
      let unit := 1 <<< (-e).toNat
      if m % unit == 0 then some (sign (m / unit : Nat)) else none
  | _ => none

/-- Quotient rounded to nearest, a tie to the even neighbour. -/
def roundHalfEven (num den : Nat) : Nat :=
  let q := num / den
  let r := num % den
  if 2 * r < den then q
  else if den < 2 * r then q + 1
  else if q % 2 == 0 then q else q + 1

/-- Bits of the float nearest to `num / den`, ties to even. Quotients that are too large give
infinity. -/
def nearestBits (num den : Nat) : Nat :=
  if num == 0 || den == 0 then 0
  else
    let scaled (e : Int) : Nat × Nat :=
      if 0 ≤ e then (num, den <<< e.toNat) else (num <<< (-e).toNat, den)
    let guess : Int := max ((num.log2 : Int) - den.log2 - 53) (-1074)
    let (n, d) := scaled guess
    let exponent := if 1 <<< 53 ≤ n / d then guess + 1 else guess
    let (n, d) := scaled exponent
    let m := roundHalfEven n d
    let (m, exponent) := if m == 1 <<< 53 then (1 <<< 52, exponent + 1) else (m, exponent)
    if 971 < exponent then 2047 <<< 52
    else if m < 1 <<< 52 then m
    else (exponent + 1075).toNat <<< 52 + (m - 1 <<< 52)

def nearest (num den : Nat) : Float :=
  Float.ofBits (nearestBits num den).toUInt64

/-! ## Shortest digits -/

/-- The digits and the exponent of a decimal number, `digits * 10 ^ exponent`. -/
structure Digits where
  digits : Nat
  exponent : Int
deriving Repr, DecidableEq

/-- `mantissa * 2 ^ exponent` and the ends of the interval of numbers that round to it, as
numerators over one denominator. -/
structure Interval where
  low : Nat
  value : Nat
  high : Nat
  den : Nat
  closed : Bool

def Interval.of (m : Nat) (e : Int) : Interval :=
  let factor := if 2 ≤ e then 1 <<< (e - 2).toNat else 1
  let den := if 2 ≤ e then 1 else 1 <<< (2 - e).toNat
  let below := if m == 1 <<< 52 && -1074 < e then 1 else 2
  ⟨(4 * m - below) * factor, 4 * m * factor, (4 * m + 2) * factor, den, m % 2 == 0⟩

def Interval.holds (i : Interval) (num den : Nat) : Bool :=
  let (l, x, h) := (i.low * den, num * i.den, i.high * den)
  if i.closed then l ≤ x && x ≤ h else l < x && x < h

/-- Number of digits before the point; zero or negative when leading zeros follow the point. -/
def Interval.magnitude (i : Interval) : Int :=
  ((toString (i.value * Nat.pow 10 400 / i.den)).length : Int) - 400

/-- The point of the grid with `n` digits that reads back, nearest to the value. -/
def Interval.onGrid? (i : Interval) (n : Nat) : Option Digits :=
  let exponent := i.magnitude - n
  let up := if 0 ≤ exponent then Nat.pow 10 exponent.toNat else 1
  let down := if 0 ≤ exponent then 1 else Nat.pow 10 (-exponent).toNat
  let num := i.value * down
  let den := i.den * up
  let d := num / den
  let floorFits := i.holds (d * up) down
  let ceilFits := i.holds ((d + 1) * up) down
  if floorFits && ceilFits then
    if 2 * (num % den) < den then some ⟨d, exponent⟩ else some ⟨d + 1, exponent⟩
  else if floorFits then some ⟨d, exponent⟩
  else if ceilFits then some ⟨d + 1, exponent⟩
  else none

/-- Move trailing zeros into the exponent, at most `n` of them. -/
def Digits.strip (d : Digits) : Nat → Digits
  | 0 => d
  | n + 1 =>
    if d.digits % 10 == 0 && d.digits != 0 then
      Digits.strip ⟨d.digits / 10, d.exponent + 1⟩ n
    else d

/-- Shortest digits of `mantissa * 2 ^ exponent`, the mantissa being positive. -/
def shortest (m : Nat) (e : Int) : Digits :=
  let i := Interval.of m e
  let found := (List.range' 1 17).findSome? i.onGrid?
  (found.getD ⟨i.value / i.den, 0⟩).strip 18

end BrowserScript.Decimal
