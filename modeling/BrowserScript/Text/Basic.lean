/-!
The case of ASCII letters; white space, with trimming, splitting into words and joining them again;
and readers that take what they can from the head of a list.
-/

namespace BrowserScript.Text

/-! ## Case

All characters that are no ASCII letters stay as they are. -/

def asciiLower (c : Char) : Char :=
  if 'A' ≤ c ∧ c ≤ 'Z' then Char.ofNat (c.toNat + 32) else c

def asciiUpper (c : Char) : Char :=
  if 'a' ≤ c ∧ c ≤ 'z' then Char.ofNat (c.toNat - 32) else c

def asciiLowered (s : String) : String := String.ofList (s.toList.map asciiLower)

def asciiUppered (s : String) : String := String.ofList (s.toList.map asciiUpper)

/-! ## White space -/

/-- The property White_Space. -/
def isBlank (c : Char) : Bool :=
  let n := c.toNat
  (9 ≤ n && n ≤ 13) || n == 0x20 || n == 0x85 || n == 0xA0 || n == 0x1680
    || (0x2000 ≤ n && n ≤ 0x200A) || n == 0x2028 || n == 0x2029 || n == 0x202F || n == 0x205F
    || n == 0x3000

/-- The blanks of markup: tab, line feed, form feed, carriage return and space. -/
def isMarkupBlank (c : Char) : Bool :=
  c == ' ' || c == '\t' || c == '\n' || c == '\r' || c == '\x0c'

def trimStart (cs : List Char) : List Char := cs.dropWhile isBlank

def trimEnd (cs : List Char) : List Char := (cs.reverse.dropWhile isBlank).reverse

def trim (cs : List Char) : List Char := trimEnd (trimStart cs)

/-- The text without blanks at its ends. -/
def trimmed (s : String) : String := String.ofList (trim s.toList)

/-- The maximal runs of characters that are not blank; `word` is the run being read, reversed. -/
def wordsFrom (word : List Char) : List Char → List (List Char)
  | [] => if word.isEmpty then [] else [word.reverse]
  | c :: cs =>
    if isBlank c then
      if word.isEmpty then wordsFrom [] cs else word.reverse :: wordsFrom [] cs
    else wordsFrom (c :: word) cs

def words (cs : List Char) : List (List Char) := wordsFrom [] cs

/-- Words with one space between neighbours and none at the ends. -/
def collapse (s : String) : String :=
  String.ofList ((words s.toList).intersperse [' ']).flatten

/-! ## Readers

They are repeated as long as they find something, and every round has to leave less than it found. -/

/-- A value read from the head of a list, and what is left. -/
abbrev Reader (τ α : Type) : Type := List τ → Option (α × List τ)

/-- Repeat a step while it finds something; a step that finds nothing gives `some none`. -/
def loop (step : α → List τ → Option (Option (α × List τ))) (a : α) (ts : List τ) :
    Option (α × List τ) :=
  match step a ts with
  | none => none
  | some none => some (a, ts)
  | some (some (a', ts')) => if ts'.length < ts.length then loop step a' ts' else none
termination_by ts.length

end BrowserScript.Text
