import BrowserScript.Json.Number

/-!
Reading JSON documents. Characters are gathered into tokens by one machine, tokens into values
by another that keeps the open containers on a stack. Containers nest at most 127 deep.
-/

namespace BrowserScript.Json

inductive Token
  | openBracket | closeBracket | openBrace | closeBrace | comma | colon
  | scalar (value : Json)
  | text (s : String)

/-- What the tokenizer is in the middle of; gathered characters are reversed. -/
inductive Scan
  | idle
  | bare (cs : List Char)
  | text (cs : List Char)
  | escape (cs : List Char)
  /-- Hex digits of an escape, after the first half of a pair if `high` is given. -/
  | hex (cs : List Char) (high : Option Nat) (digits : List Char)
  /-- Between the halves of a pair; `slash` tells whether the backslash was read. -/
  | between (cs : List Char) (high : Nat) (slash : Bool)

def isJsonBlank (c : Char) : Bool := c == ' ' || c == '\t' || c == '\n' || c == '\r'

def hexDigit? (c : Char) : Option Nat :=
  if '0' ≤ c ∧ c ≤ '9' then some (c.toNat - 48)
  else if 'a' ≤ c ∧ c ≤ 'f' then some (c.toNat - 87)
  else if 'A' ≤ c ∧ c ≤ 'F' then some (c.toNat - 55)
  else none

def hexValue? (cs : List Char) : Option Nat :=
  cs.foldlM (fun n c => (hexDigit? c).map (16 * n + ·)) 0

/-- A token of letters, digits and signs: a literal or a number. -/
def bareToken? (cs : List Char) : Option Token :=
  match String.ofList cs with
  | "null" => some (.scalar .null)
  | "true" => some (.scalar (.bool true))
  | "false" => some (.scalar (.bool false))
  | _ => (number? cs).map .scalar

def escaped? (c : Char) : Option Char :=
  match c with
  | '"' => some '"'
  | '\\' => some '\\'
  | '/' => some '/'
  | 'b' => some '\x08'
  | 'f' => some '\x0c'
  | 'n' => some '\n'
  | 'r' => some '\r'
  | 't' => some '\t'
  | _ => none

abbrev Scanner := Scan × List Token

/-- A character between tokens. -/
def startToken (ts : List Token) (c : Char) : Option Scanner :=
  if isJsonBlank c then some (.idle, ts)
  else
    match c with
    | '[' => some (.idle, .openBracket :: ts)
    | ']' => some (.idle, .closeBracket :: ts)
    | '{' => some (.idle, .openBrace :: ts)
    | '}' => some (.idle, .closeBrace :: ts)
    | ',' => some (.idle, .comma :: ts)
    | ':' => some (.idle, .colon :: ts)
    | '"' => some (.text [], ts)
    | _ => some (.bare [c], ts)

def isBare (c : Char) : Bool :=
  Text.isAsciiLetter c || Text.isAsciiDigit c || c == '-' || c == '+' || c == '.'

/-- A completed four-digit escape. -/
def endHex (cs : List Char) (high : Option Nat) (n : Nat) : Option Scan :=
  match high with
  | some h =>
    if 0xDC00 ≤ n ∧ n ≤ 0xDFFF then
      some (.text (Char.ofNat (0x10000 + (h - 0xD800) * 0x400 + (n - 0xDC00)) :: cs))
    else none
  | none =>
    if 0xDC00 ≤ n ∧ n ≤ 0xDFFF then none
    else if 0xD800 ≤ n ∧ n ≤ 0xDBFF then some (.between cs n false)
    else some (.text (Char.ofNat n :: cs))

def scanChar : Scanner → Char → Option Scanner
  | (.idle, ts), c => startToken ts c
  | (.bare cs, ts), c =>
    if isBare c then some (.bare (c :: cs), ts)
    else do
      let t ← bareToken? cs.reverse
      startToken (t :: ts) c
  | (.text cs, ts), c =>
    if c == '"' then some (.idle, .text (String.ofList cs.reverse) :: ts)
    else if c == '\\' then some (.escape cs, ts)
    else if c.toNat < 0x20 then none
    else some (.text (c :: cs), ts)
  | (.escape cs, ts), c =>
    if c == 'u' then some (.hex cs none [], ts)
    else (escaped? c).map fun e => (.text (e :: cs), ts)
  | (.hex cs high ds, ts), c => do
    if ds.length < 3 then
      let _ ← hexDigit? c
      some (.hex cs high (c :: ds), ts)
    else
      let n ← hexValue? (c :: ds).reverse
      let scan ← endHex cs high n
      some (scan, ts)
  | (.between cs h slash, ts), c =>
    if !slash && c == '\\' then some (.between cs h true, ts)
    else if slash && c == 'u' then some (.hex cs (some h) [], ts)
    else none

def tokens? (cs : List Char) : Option (List Token) := do
  let (scan, ts) ← cs.foldlM scanChar (Scan.idle, [])
  match scan with
  | .idle => some ts.reverse
  | .bare cs => (bareToken? cs.reverse).map fun t => (t :: ts).reverse
  | _ => none

/-- An open container with what it holds so far, reversed. -/
inductive Frame
  | array (items : List Json)
  | object (fields : Fields)
  | valueOf (fields : Fields) (name : String)

/-- What may come next. -/
inductive Expect
  | value | firstItem | firstField | field | colon | separator
  | nothing (result : Json)

structure Builder where
  open_ : List Frame
  expect : Expect

def deepest : Nat := 127

/-- A value is complete: it goes into the innermost open container. -/
def Builder.complete (v : Json) : List Frame → Option Builder
  | [] => some ⟨[], .nothing v⟩
  | .array items :: rest => some ⟨.array (v :: items) :: rest, .separator⟩
  | .valueOf fields name :: rest => some ⟨.object ((name, v) :: fields) :: rest, .separator⟩
  | .object _ :: _ => none

def Builder.enter (frame : Frame) (expect : Expect) (frames : List Frame) : Option Builder :=
  if frames.length < deepest then some ⟨frame :: frames, expect⟩ else none

def Builder.value (frames : List Frame) : Token → Option Builder
  | .openBracket => Builder.enter (.array []) .firstItem frames
  | .openBrace => Builder.enter (.object []) .firstField frames
  | .scalar v => Builder.complete v frames
  | .text s => Builder.complete (.string s) frames
  | _ => none

def Builder.name (frames : List Frame) (s : String) : Option Builder :=
  match frames with
  | .object fields :: rest => some ⟨.valueOf fields s :: rest, .colon⟩
  | _ => none

def Builder.close : List Frame → Token → Option Builder
  | .array items :: rest, .closeBracket => Builder.complete (.array items.reverse) rest
  | .object fields :: rest, .closeBrace => Builder.complete (.object fields.reverse) rest
  | _, _ => none

def Builder.step (b : Builder) (t : Token) : Option Builder :=
  match b.expect, t with
  | .value, t => Builder.value b.open_ t
  | .firstItem, .closeBracket => Builder.close b.open_ .closeBracket
  | .firstItem, t => Builder.value b.open_ t
  | .firstField, .closeBrace => Builder.close b.open_ .closeBrace
  | .firstField, .text s => Builder.name b.open_ s
  | .field, .text s => Builder.name b.open_ s
  | .colon, .colon => some ⟨b.open_, .value⟩
  | .separator, .comma =>
    match b.open_ with
    | .array _ :: _ => some ⟨b.open_, .value⟩
    | .object _ :: _ => some ⟨b.open_, .field⟩
    | _ => none
  | .separator, t => Builder.close b.open_ t
  | _, _ => none

/-- The value a document stands for. -/
def parse? (text : String) : Option Json := do
  let ts ← tokens? text.toList
  let b ← ts.foldlM Builder.step ⟨[], .value⟩
  match b.expect with
  | .nothing v => some v
  | _ => none

end BrowserScript.Json
