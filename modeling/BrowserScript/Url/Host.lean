import BrowserScript.Url.Percent
import BrowserScript.Text.Letter
import BrowserScript.Text.Search

/-!
Hosts of URLs: names, IPv4 and IPv6 addresses in their normal form. Names are ASCII.
-/

namespace BrowserScript.Url

inductive Error
  | emptyHost
  | internationalName
  | port
  | ipv4
  | ipv6
  | hostCharacter
  | relativeWithoutBase
  | relativeToFlat
deriving DecidableEq, Repr

def Error.message : Error → String
  | .emptyHost => "empty host"
  | .internationalName => "invalid international domain name"
  | .port => "invalid port number"
  | .ipv4 => "invalid IPv4 address"
  | .ipv6 => "invalid IPv6 address"
  | .hostCharacter => "invalid domain character"
  | .relativeWithoutBase => "relative URL without a base"
  | .relativeToFlat => "relative URL with a cannot-be-a-base base"

def ofDigits (base : Nat) (cs : List Char) : Option Nat :=
  if cs.isEmpty then none
  else cs.foldlM (fun n c => ((hexDigit? c).filter (· < base)).map (base * n + ·)) 0

/-- A number of an IPv4 address: hexadecimal after 0x, octal after another leading zero. -/
def ipv4Number? : List Char → Option Nat
  | [] => none
  | ['0'] => some 0
  | '0' :: x :: rest =>
    if x == 'x' || x == 'X' then if rest.isEmpty then some 0 else ofDigits 16 rest
    else ofDigits 8 (x :: rest)
  | cs => ofDigits 10 cs

/-- Whether the last label is a number, so that the host has to be an IPv4 address. -/
def endsInNumber (labels : List (List Char)) : Bool :=
  let labels := labels.reverse
  let last :=
    match labels with
    | [] :: rest => rest.head?
    | labels => labels.head?
  match last with
  | none => false
  | some l => (!l.isEmpty && l.all Text.isAsciiDigit) || (ipv4Number? l).isSome

def ipv4Text (n : Nat) : String :=
  toString (n >>> 24) ++ "." ++ toString (n >>> 16 % 256) ++ "."
    ++ toString (n >>> 8 % 256) ++ "." ++ toString (n % 256)

/-- The address of up to four numbers, the last of which fills all places left. -/
def ipv4? (labels : List (List Char)) : Option Nat := do
  let labels := if labels.getLast? == some [] then labels.dropLast else labels
  if 4 < labels.length then none
  let numbers ← labels.mapM ipv4Number?
  let last ← numbers.getLast?
  let first := numbers.dropLast
  let room := 8 * (4 - first.length)
  if 1 <<< room ≤ last || first.any (255 < ·) then none
  let high := first.foldl (fun n x => 256 * n + x) 0
  some (high <<< room + last)

/-- Up to four hex digits of an IPv6 address. -/
def ipv6Piece? (cs : List Char) : Option Nat :=
  if 4 < cs.length then none else ofDigits 16 cs

/-- Four decimal numbers with points, as two pieces. -/
def embeddedIpv4? (cs : List Char) : Option (List Nat) := do
  let parts := Text.splitOn '.' cs
  if parts.length != 4 then none
  let numbers ← parts.mapM fun p =>
    if p.isEmpty || !p.all Text.isAsciiDigit || (1 < p.length && p.head? == some '0') then none
    else (ofDigits 10 p).filter (· ≤ 255)
  match numbers with
  | [a, b, c, d] => some [256 * a + b, 256 * c + d]
  | _ => none

/-- The pieces of one side of the gap; only the last may be an IPv4 address. -/
def ipv6Side? (mayEmbed : Bool) (cs : List Char) : Option (List Nat) :=
  if cs.isEmpty then some []
  else
    let parts := Text.splitOn ':' cs
    let last := parts.getLast?.getD []
    if mayEmbed && last.contains '.' then do
      let front ← parts.dropLast.mapM ipv6Piece?
      let back ← embeddedIpv4? last
      some (front ++ back)
    else parts.mapM ipv6Piece?

/-- Eight pieces, where one gap of at least one zero piece may be left out. -/
def ipv6? (cs : List Char) : Option (List Nat) :=
  match Text.splitAt? [':', ':'] cs with
  | none => (ipv6Side? true cs).filter (·.length == 8)
  | some (before, after) => do
    let front ← ipv6Side? false before
    let back ← ipv6Side? true after
    if 7 < front.length + back.length then none
    some (front ++ List.replicate (8 - front.length - back.length) 0 ++ back)

def hexText (n : Nat) : String := String.ofList (Nat.toDigits 16 n)

/-- Start and length of the first longest run of zeros, `at_` being the place reached. -/
def longestZeros (at_ : Nat) (run best : Nat × Nat) : List Nat → Nat × Nat
  | [] => if best.2 < run.2 then run else best
  | p :: ps =>
    let best' := if best.2 < run.2 then run else best
    if p == 0 then
      longestZeros (at_ + 1) (if run.2 == 0 then (at_, 1) else (run.1, run.2 + 1)) best' ps
    else longestZeros (at_ + 1) (0, 0) best' ps

/-- The longest run of two or more zeros is left out. -/
def ipv6Text (pieces : List Nat) : String :=
  let joined (ps : List Nat) : String := String.intercalate ":" (ps.map hexText)
  let (start, n) := longestZeros 0 (0, 0) (0, 0) pieces
  if n < 2 then "[" ++ joined pieces ++ "]"
  else "[" ++ joined (pieces.take start) ++ "::" ++ joined (pieces.drop (start + n)) ++ "]"

def bracketed? (cs : List Char) : Except Error String :=
  if cs.length < 2 || cs.getLast? != some ']' then .error .ipv6
  else
    match ipv6? (cs.drop 1).dropLast with
    | some pieces => .ok (ipv6Text pieces)
    | none => .error .ipv6

def isForbiddenInName (c : Char) : Bool :=
  c.toNat ≤ 0x20 || c.toNat == 0x7F || isOneOf "%#/:<>?@[\\]^|" c

/-- The host of a URL with a special scheme. -/
def specialHost (cs : List Char) : Except Error String :=
  if cs.head? == some '[' then bracketed? cs
  else
    match String.fromUTF8? (ByteArray.mk (percentDecode cs).toArray) with
    | none => .error .internationalName
    | some decoded =>
      let name := decoded.toList.map Text.asciiLower
      if name.any fun c => isForbiddenInName c || 0x7F < c.toNat then .error .internationalName
      else if name.isEmpty then .error .emptyHost
      else
        let labels := Text.splitOn '.' name
        if endsInNumber labels then
          match ipv4? labels with
          | some n => .ok (ipv4Text n)
          | none => .error .ipv4
        else .ok (String.ofList name)

def isForbiddenInHost (c : Char) : Bool :=
  c.toNat == 0 || isOneOf "\t\n\r #/:<>?@[\\]^|" c

/-- The host of a URL with any other scheme. -/
def plainHost (cs : List Char) : Except Error String :=
  if cs.head? == some '[' then bracketed? cs
  else if cs.any isForbiddenInHost then .error .hostCharacter
  else .ok (String.ofList (percentEncode controlSet cs))

end BrowserScript.Url
