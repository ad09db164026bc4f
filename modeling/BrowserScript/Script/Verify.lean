import BrowserScript.Script.Reading
import BrowserScript.Text.Lowercase
import BrowserScript.Verification.Basic

/-!
Verify statements. The families are tried in order and the first that is found in the line
decides:

    verify [that] [the] text [of TARGET] OPERATOR "EXPECTED" [in "LOCATOR"]
    verify [that] [the] value|placeholder [of TARGET] OPERATOR "EXPECTED" [in "LOCATOR"]
    verify [that] [the] state [of TARGET] is STATE [in "LOCATOR"]
    verify [that] [the] title|url OPERATOR "EXPECTED"
    verify "EXPECTED" in "LOCATOR"
-/

namespace BrowserScript.Script

/-- What a verify statement says. -/
structure VerifyStatement where
  subject : Subject
  operator : Operator
  expected : String
  locator : Option String
  target : Option String
deriving DecidableEq, Repr

namespace VerifyStatement

open Reading

def isQuote (c : Char) : Bool := c == '"' || c == '\''

/-- A text between quotes of either kind that holds none. -/
def quotedText : Reading String
  | [] => []
  | q :: cs =>
    if isQuote q then
      let body := cs.takeWhile (!isQuote ·)
      match cs.dropWhile (!isQuote ·) with
      | _ :: rest => if body.isEmpty then [] else [(String.ofList body, rest)]
      | [] => []
    else []

/-- Length of a text in quotes and what follows it. -/
def quotedLength? : List Char → Option (Nat × List Char)
  | [] => none
  | q :: cs =>
    if isQuote q then
      match cs.dropWhile (· != q) with
      | _ :: rest => some ((cs.takeWhile (· != q)).length + 2, rest)
      | [] => none
    else none

theorem quotedLength?_length {cs rest : List Char} {n : Nat}
    (h : quotedLength? cs = some (n, rest)) : rest.length < cs.length := by
  cases cs with
  | nil => simp [quotedLength?] at h
  | cons q cs =>
      simp only [quotedLength?] at h
      split at h
      · split at h
        · next hd =>
            have hl := Text.length_dropWhile_le (· != q) cs
            rw [hd] at hl
            simp only [Option.some.injEq, Prod.mk.injEq] at h
            obtain ⟨-, rfl⟩ := h
            simp only [List.length_cons] at hl ⊢
            omega
        · simp at h
      · simp at h

/-- What remains after passing over 0, 1, 2, ... characters of the run, the longest first. -/
def afterRun (p : Char → Bool) (n : Nat) : List Char → List (Nat × List Char)
  | [] => [(n, [])]
  | c :: cs => if p c then afterRun p (n + 1) cs ++ [(n, c :: cs)] else [(n, c :: cs)]

theorem afterRun_length {p : Char → Bool} {cs : List Char} {n : Nat} {m : Nat × List Char}
    (h : m ∈ afterRun p n cs) : m.2.length ≤ cs.length := by
  induction cs generalizing n with
  | nil => simp_all [afterRun]
  | cons c cs ih =>
      simp only [afterRun] at h
      split at h
      · rcases List.mem_append.1 h with h | h
        · have := ih h
          simp only [List.length_cons]
          omega
        · simp_all
      · simp_all

/-- Any number of quoted texts, each followed by a run without quotes. `n` characters were read
before. -/
def quotedTail (n : Nat) (cs : List Char) : List (Nat × List Char) :=
  match _h : quotedLength? cs with
  | none => [(n, cs)]
  | some (k, rest) =>
    (afterRun (!isQuote ·) (n + k) rest).attach.flatMap (fun m => quotedTail m.1.1 m.1.2)
      ++ [(n, cs)]
termination_by cs.length
decreasing_by
  have hm := afterRun_length m.2
  have hr := quotedLength?_length _h
  omega

/-- A locator in quotes, which may itself hold quoted texts. -/
def quotedLocator : Reading Span
  | [] => []
  | q :: cs =>
    if isQuote q then
      ((afterRun (· != '"') 0 cs).flatMap fun (n, rest) => quotedTail n rest).filterMap
        fun (n, rest) =>
          match rest with
          | close :: rest => if isQuote close then some (⟨cs, n⟩, rest) else none
          | [] => none
    else []

def opening : Reading Unit := do
  let _ ← word "verify"
  let _ ← someBlanks
  let _ ← optional (do let _ ← word "that"; someBlanks)
  let _ ← optional (do let _ ← word "the"; someBlanks)

def ofTarget : Reading Span := do
  let _ ← someBlanks
  let _ ← word "of"
  let _ ← someBlanks
  fewest

/-- Two words with blanks between them, as written. -/
def twoWords (first second : String) : Reading (List Char) := do
  let a ← word first
  let b ← someBlanks
  let c ← word second
  return a ++ b ++ c

def operatorPhrase : Reading (List Char) :=
  orElse (word "equals") <| orElse (word "contains") <|
    orElse (twoWords "starts" "with") (twoWords "ends" "with")

def inLocator : Reading Span := do
  let _ ← word "in"
  let _ ← someBlanks
  quotedLocator

/-- The text of an optional stretch, none when it is empty. -/
def spanText (s : Option Span) : Option String := s.bind Span.text?

def parseOperator? (written : List Char) : Option Operator :=
  Operator.parse? (String.ofList written)

/-- The rest of a statement that compares: the target, the operator, the expected text and the
locator. Its words were recognised in any letter case, but the operator has to be spelled in
plain letters. -/
def comparison (subject : Subject) : Reading (Option VerifyStatement) := do
  let target ← optional ofTarget
  let _ ← someBlanks
  let op ← operatorPhrase
  let _ ← someBlanks
  let expected ← quotedText
  let _ ← blanks
  let locator ← optional inLocator
  return (parseOperator? op).map fun op =>
    ⟨subject, op, expected, spanText locator, spanText target⟩

def subjectWord (s : Subject) : Reading Subject := do
  let _ ← word s.word
  return s

def textFamily : Reading (Option VerifyStatement) := do
  opening
  let s ← subjectWord .text
  comparison s

def attributeFamily : Reading (Option VerifyStatement) := do
  opening
  let s ← orElse (subjectWord .value) (subjectWord .placeholder)
  comparison s

def stateWord : Reading (List Char) :=
  ElementState.all.foldr (fun s r => orElse (word s.word) r) fun _ => []

def stateFamily : Reading (Option VerifyStatement) := do
  opening
  let _ ← word "state"
  let target ← optional ofTarget
  let _ ← someBlanks
  let _ ← word "is"
  let _ ← someBlanks
  let state ← stateWord
  let _ ← blanks
  let locator ← optional inLocator
  return some ⟨.state, .is, Text.lowered (String.ofList state), spanText locator, spanText target⟩

def pageFamily : Reading (Option VerifyStatement) := do
  opening
  let s ← orElse (subjectWord .title) (subjectWord .url)
  let _ ← someBlanks
  let op ← operatorPhrase
  let _ ← someBlanks
  let expected ← quotedText
  return (parseOperator? op).map fun op => ⟨s, op, expected, none, none⟩

def shortFamily : Reading (Option VerifyStatement) := do
  let _ ← word "verify"
  let _ ← someBlanks
  let expected ← quotedText
  let _ ← someBlanks
  let locator ← inLocator
  return some ⟨.text, .contains, expected, locator.text?, none⟩

def families : List (Reading (Option VerifyStatement)) :=
  [textFamily, attributeFamily, stateFamily, pageFamily, shortFamily]

/-- The statement a line holds. -/
def parse? (src : String) : Option VerifyStatement :=
  (families.findSome? fun family => family.find? src.toList).join

end VerifyStatement

end BrowserScript.Script
