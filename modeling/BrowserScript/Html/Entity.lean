import BrowserScript.Url.Percent
import BrowserScript.Text.Search

/-!
Character references: `&name;`, `&#10;` and `&#x0a;`, where at most nine bytes stand between the
ampersand and the semicolon. All else stays as it is.
-/

namespace BrowserScript.Html

def charOf? (n : Nat) : Option Char :=
  if n < 0xD800 || (0xDFFF < n && n ≤ 0x10FFFF) then some (Char.ofNat n) else none

/-- A number in the given base, with an optional plus sign. -/
def number? (base : Nat) (cs : List Char) : Option Nat :=
  let ds :=
    match cs with
    | '+' :: r => r
    | r => r
  if ds.isEmpty then none
  else ds.foldlM (fun n c => (Url.hexDigit? c).bind fun d =>
    if d < base then some (base * n + d) else none) 0

/-- The character a reference names. -/
def entity? (name : List Char) : Option Char :=
  match name with
  | ['a', 'm', 'p'] => some '&'
  | ['l', 't'] => some '<'
  | ['g', 't'] => some '>'
  | ['q', 'u', 'o', 't'] => some '"'
  | ['a', 'p', 'o', 's'] => some '\''
  | ['n', 'b', 's', 'p'] => some '\u00a0'
  | '#' :: 'x' :: ds => (number? 16 ds).bind charOf?
  | '#' :: 'X' :: ds => (number? 16 ds).bind charOf?
  | '#' :: ds => (number? 10 ds).bind charOf?
  | _ => none

/-- The character of the reference whose ampersand is already read, and the length of its
name. -/
def reference? (cs : List Char) : Option (Char × Nat) :=
  let near := cs.take 10
  let name := near.takeWhile (· != ';')
  if name.length < near.length && Text.byteLength name ≤ 9 then
    (entity? name).map fun c => (c, name.length)
  else none

/-- Replace references; `skip` characters of one are still to be passed over. -/
def decodeFrom (skip : Nat) : List Char → List Char
  | [] => []
  | c :: cs =>
    match skip with
    | n + 1 => decodeFrom n cs
    | 0 =>
      if c = '&' then
        match reference? cs with
        | some (r, n) => r :: decodeFrom (n + 1) cs
        | none => '&' :: decodeFrom 0 cs
      else c :: decodeFrom 0 cs

def decode (cs : List Char) : List Char := decodeFrom 0 cs

end BrowserScript.Html
