import BrowserScript.Decimal.Text
import BrowserScript.Html.Entity
import BrowserScript.Text.Basic
import BrowserScript.Toml.Basic

/-!
Scalars of TOML documents: strings in four kinds of quotes, numbers, and dates and times.
-/

namespace BrowserScript.Toml

abbrev Reader (α : Type) : Type := Text.Reader Char α

def isSpace (c : Char) : Bool := c == ' ' || c == '\t'

/-- A character that may stand in a line. -/
def isLineChar (c : Char) : Bool := c == '\t' || (0x20 ≤ c.toNat && c.toNat != 0x7F)

def newline? : List Char → Option (List Char)
  | '\n' :: r => some r
  | '\r' :: '\n' :: r => some r
  | _ => none

/-! ## Strings -/

/-- The character whose code the first so many hex digits give. -/
def codeChar? (size : Nat) (cs : List Char) : Option Char :=
  let ds := cs.take size
  if ds.length = size ∧ ds.all fun d => (Url.hexDigit? d).isSome then
    (Html.number? 16 ds).bind Html.charOf?
  else none

/-- The character of an escape and how many characters stand for it after the backslash. -/
def escape? : List Char → Option (Char × Nat)
  | 'b' :: _ => some ('\x08', 1)
  | 't' :: _ => some ('\t', 1)
  | 'n' :: _ => some ('\n', 1)
  | 'f' :: _ => some ('\x0c', 1)
  | 'r' :: _ => some ('\r', 1)
  | '"' :: _ => some ('"', 1)
  | '\\' :: _ => some ('\\', 1)
  | 'u' :: r => (codeChar? 4 r).map (·, 5)
  | 'U' :: r => (codeChar? 8 r).map (·, 9)
  | _ => none

/-- The rest of a string on one line. `skip` characters of an escape are still to be passed
over. -/
def basicFrom (skip : Nat) : Reader (List Char)
  | [] => none
  | c :: cs =>
    match skip with
    | n + 1 => basicFrom n cs
    | 0 =>
      if c = '"' then some ([], cs)
      else if c = '\\' then
        match escape? cs with
        | some (e, n) => (basicFrom n cs).map fun (s, r) => (e :: s, r)
        | none => none
      else if isLineChar c then (basicFrom 0 cs).map fun (s, r) => (c :: s, r)
      else none

/-- The rest of a literal string on one line. -/
def literal : Reader (List Char)
  | [] => none
  | c :: cs =>
    if c = '\'' then some ([], cs)
    else if isLineChar c then (literal cs).map fun (s, r) => (c :: s, r)
    else none

/-- How many spaces and line ends stand at the head. -/
def gapLength : List Char → Nat
  | [] => 0
  | '\r' :: '\n' :: cs => 2 + gapLength cs
  | c :: cs => if isSpace c || c == '\n' then 1 + gapLength cs else 0

/-- How many characters a backslash at the end of a line takes away. -/
def lineJoin? (cs : List Char) : Option Nat :=
  if (newline? (cs.dropWhile isSpace)).isSome then some (gapLength cs) else none

/-- What three quotes in a row end: before them up to two quotes belong to the string. -/
def closing? (q : Char) (cs : List Char) : Option (List Char × List Char) :=
  let quotes := (cs.takeWhile (· == q)).length
  if quotes < 3 then none
  else
    let inside := min (quotes - 3) 2
    some (List.replicate inside q, cs.drop (inside + 3))

/-- The rest of a string over several lines. -/
def longFrom (q : Char) (skip : Nat) : Reader (List Char)
  | [] => none
  | c :: cs =>
    match skip with
    | n + 1 => longFrom q n cs
    | 0 =>
      match closing? q (c :: cs) with
      | some ended => some ended
      | none =>
        let more (d : Char) (n : Nat) : Option (List Char × List Char) :=
          (longFrom q n cs).map fun (s, r) => (d :: s, r)
        if c = '\\' ∧ q = '"' then
          match lineJoin? cs, escape? cs with
          | some n, _ => longFrom q n cs
          | none, some (e, n) => more e n
          | none, none => none
        else if c = '\r' then if cs.head? = some '\n' then more '\n' 1 else none
        else if c = '\n' || isLineChar c then more c 0
        else none

/-- A line end right after the opening quotes is left out. -/
def long (q : Char) (cs : List Char) : Option (List Char × List Char) :=
  longFrom q 0 ((newline? cs).getD cs)

def quoted? : List Char → Option (List Char × List Char)
  | '"' :: cs => basicFrom 0 cs
  | '\'' :: cs => literal cs
  | _ => none

def string? : List Char → Option (List Char × List Char)
  | '"' :: '"' :: '"' :: cs => long '"' cs
  | '\'' :: '\'' :: '\'' :: cs => long '\'' cs
  | cs => quoted? cs

/-! ## Numbers -/

/-- Digits in which single underscores may stand between two digits. -/
def digits? (isDigit : Char → Bool) (cs : List Char) : Option (List Char) :=
  let parts := Text.splitOn '_' cs
  if parts.all fun p => !p.isEmpty && p.all isDigit then some parts.flatten else none

/-- Digits without a needless zero in front. -/
def plainDigits? (cs : List Char) : Option (List Char) :=
  (digits? Text.isAsciiDigit cs).filter fun ds => ds.length == 1 || ds.head? != some '0'

def signed (cs : List Char) : Bool × List Char :=
  match cs with
  | '-' :: r => (true, r)
  | '+' :: r => (false, r)
  | r => (false, r)

def inBase? (base : Nat) (cs : List Char) : Option Int := do
  let ds ← digits? (fun c => (Url.hexDigit? c).any (· < base)) cs
  let n ← Html.number? base ds
  if n < 1 <<< 63 then some n else none

/-- An integer of 64 bits. -/
def integer? (cs : List Char) : Option Int :=
  match cs with
  | '0' :: 'x' :: r => inBase? 16 r
  | '0' :: 'o' :: r => inBase? 8 r
  | '0' :: 'b' :: r => inBase? 2 r
  | cs => do
    let (negative, r) := signed cs
    let n := Decimal.digitsValue (← plainDigits? r)
    if negative then if n ≤ 1 <<< 63 then some (-(n : Int)) else none
    else if n < 1 <<< 63 then some n else none

/-- An exponent, or nothing. -/
def isExponent (cs : List Char) : Bool :=
  match cs with
  | [] => true
  | e :: r => (e == 'e' || e == 'E') && (digits? Text.isAsciiDigit (signed r).2).isSome

def isExponentMark (c : Char) : Bool := c == 'e' || c == 'E'

/-- What follows the whole part of a float: a fraction, an exponent or both. -/
def isFloatTail (cs : List Char) : Bool :=
  match cs with
  | [] => false
  | '.' :: r =>
    (digits? Text.isAsciiDigit (r.takeWhile (!isExponentMark ·))).isSome
      && isExponent (r.dropWhile (!isExponentMark ·))
  | cs => isExponent cs

/-- A number with a fraction or an exponent, or a name of infinity or of no number. What is too
large is refused, unless it is negative. -/
def float? (cs : List Char) : Option Float :=
  let (negative, body) := signed cs
  match String.ofList body with
  | "inf" | "nan" => Decimal.float? cs
  | _ =>
    let inWhole (c : Char) : Bool := c != '.' && !isExponentMark c
    if (plainDigits? (body.takeWhile inWhole)).isSome && isFloatTail (body.dropWhile inWhole) then
      (Decimal.float? (cs.filter (· != '_'))).filter fun f => negative || !f.isInf
    else none

/-! ## Dates and times -/

/-- A number of exactly two digits in a range. -/
def pair? (low high : Nat) (cs : List Char) : Option Nat :=
  if cs.length = 2 ∧ cs.all Text.isAsciiDigit then
    some (Decimal.digitsValue cs) |>.filter fun n => low ≤ n && n ≤ high
  else none

def daysIn (year month : Nat) : Nat :=
  if month = 2 then
    if year % 4 = 0 ∧ (year % 100 ≠ 0 ∨ year % 400 = 0) then 29 else 28
  else if [4, 6, 9, 11].contains month then 30 else 31

def isDate (cs : List Char) : Bool :=
  match Text.splitOn '-' cs with
  | [y, m, d] =>
    y.length == 4 && y.all Text.isAsciiDigit &&
      match pair? 1 12 m with
      | some month => (pair? 1 (daysIn (Decimal.digitsValue y) month) d).isSome
      | none => false
  | _ => false

def isSeconds (cs : List Char) : Bool :=
  (pair? 0 60 (cs.take 2)).isSome &&
    match cs.drop 2 with
    | [] => true
    | '.' :: fraction => !fraction.isEmpty && fraction.all Text.isAsciiDigit
    | _ => false

def isTime (cs : List Char) : Bool :=
  match Text.splitOn ':' cs with
  | [h, m, s] => (pair? 0 23 h).isSome && (pair? 0 59 m).isSome && isSeconds s
  | _ => false

def isOffset (cs : List Char) : Bool :=
  match cs with
  | [] | ['Z'] | ['z'] => true
  | sign :: r =>
    (sign == '+' || sign == '-') &&
      match Text.splitOn ':' r with
      | [h, m] => (pair? 0 23 h).isSome && (pair? 0 59 m).isSome
      | _ => false

/-- A time, with a distance from universal time or without one. -/
def isZonedTime (cs : List Char) : Bool :=
  let inTime (c : Char) : Bool := Text.isAsciiDigit c || c == ':' || c == '.'
  isTime (cs.takeWhile inTime) && isOffset (cs.dropWhile inTime)

def isMoment (cs : List Char) : Bool :=
  isTime cs || isDate cs ||
    (isDate (cs.take 10) && ["T", "t", " "].contains (String.ofList ((cs.drop 10).take 1))
      && isZonedTime (cs.drop 11))

/-! ## All of them -/

/-- A character of numbers, names, dates and times. -/
def isScalarChar (c : Char) : Bool :=
  Text.isAsciiLetter c || Text.isAsciiDigit c || c == '_' || c == '+' || c == '-' || c == ':'
    || c == '.'

def scalarOf? (cs : List Char) : Option Value :=
  match String.ofList cs with
  | "true" => some (.bool true)
  | "false" => some (.bool false)
  | _ =>
    if isMoment cs then some (.moment (String.ofList cs))
    else
      match integer? cs with
      | some n => some (.integer n)
      | none => (float? cs).map .float

/-- A scalar without quotes. A date and its time may stand one space apart. -/
def bare? (cs : List Char) : Option (Value × List Char) :=
  let word := cs.takeWhile isScalarChar
  let rest := cs.dropWhile isScalarChar
  match isDate word, rest with
  | true, ' ' :: d :: more =>
    if Text.isAsciiDigit d then
      let all := word ++ ' ' :: (d :: more).takeWhile isScalarChar
      (scalarOf? all).map (·, (d :: more).dropWhile isScalarChar)
    else (scalarOf? word).map (·, rest)
  | _, _ => (scalarOf? word).map (·, rest)

end BrowserScript.Toml
