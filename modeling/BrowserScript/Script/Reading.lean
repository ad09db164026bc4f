import BrowserScript.Text.Basic

/-!
Readings: a text may be read in several ways, which come in order of preference. A phrase is
found where its first reading starts furthest to the left.
-/

namespace BrowserScript.Script

/-- All ways to read the head of a text, each with its value and the rest. -/
def Reading (α : Type) := List Char → List (α × List Char)

namespace Reading

instance : Monad Reading where
  pure a := fun cs => [(a, cs)]
  bind r f := fun cs => (r cs).flatMap fun (a, rest) => f a rest

/-- The readings of the first, then those of the second. -/
def orElse (r s : Reading α) : Reading α := fun cs => r cs ++ s cs

/-- Preferably read, otherwise pass. -/
def optional (r : Reading α) : Reading (Option α) :=
  orElse (some <$> r) (pure none)

def char (p : Char → Bool) : Reading Char
  | c :: cs => if p c then [(c, cs)] else []
  | [] => []

/-- Whether two characters are the same letter when case is ignored, `w` being lower case. -/
def sameLetter (w c : Char) : Bool :=
  Text.asciiLower c == w || (w == 's' && c == 'ſ') || (w == 'k' && c == '\u212a')

/-- A word in any case; its value is the word as written. -/
def wordFrom : List Char → Reading (List Char)
  | [] => pure []
  | w :: ws => do
    let c ← char (sameLetter w)
    let cs ← wordFrom ws
    return c :: cs

def word (w : String) : Reading (List Char) := wordFrom w.toList

/-- Any number of blanks, as many as possible. -/
def blanks : Reading (List Char)
  | [] => [([], [])]
  | c :: cs =>
    if Text.isBlank c then (blanks cs).map (fun (bs, rest) => (c :: bs, rest)) ++ [([], c :: cs)]
    else [([], c :: cs)]

/-- At least one blank, as many as possible. -/
def someBlanks : Reading (List Char) := do
  let c ← char Text.isBlank
  let cs ← blanks
  return c :: cs

/-- A stretch of text: where it starts and how many characters it takes. -/
structure Span where
  start : List Char
  length : Nat

def Span.chars (s : Span) : List Char := s.start.take s.length

/-- The text of a stretch that is not empty. -/
def Span.text? (s : Span) : Option String :=
  if s.length = 0 then none else some (String.ofList s.chars)

/-- Stretches from `start` that take `n` characters and more, as few as possible. -/
def stretchesFrom (start : List Char) (n : Nat) : List Char → List (Span × List Char)
  | [] => [(⟨start, n⟩, [])]
  | c :: cs => (⟨start, n⟩, c :: cs) :: stretchesFrom start (n + 1) cs

/-- At least one character, as few as possible. -/
def fewest : Reading Span
  | [] => []
  | c :: cs => stretchesFrom (c :: cs) 1 cs

/-- The value of the preferred reading at the leftmost place that has one. -/
def find? (r : Reading α) : List Char → Option α
  | [] => (r []).head?.map (·.1)
  | c :: cs =>
    match (r (c :: cs)).head? with
    | some (a, _) => some a
    | none => find? r cs

end Reading

end BrowserScript.Script
