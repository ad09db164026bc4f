import BrowserScript.Html.Token
import BrowserScript.Proofs.Text.Words
import Mathlib.Data.List.Basic

/-!
Documents as they are written: texts and elements in order, each element with what it encloses.
Printing them puts references for the characters that markup uses, and decoding takes these away.
-/

namespace BrowserScript.Html

/-- What stands in a row: nothing, or a text or an element and what stands after it. -/
inductive Content
  | empty
  | text (cs : List Char) (after : Content)
  | element (tag : List Char) (attributes : Attributes) (inside after : Content)

/-- Whether the content of a tag is one text. -/
def isTextTag (tag : List Char) : Bool := textTags.contains (String.ofList tag)

/-- Whether the text of a tag holds no references. -/
def isRawTag (tag : List Char) : Bool := rawTags.contains (String.ofList tag)

def isVoidTag (tag : List Char) : Bool := voidTags.contains (String.ofList tag)

/-! ## Printing -/

def escapeChar (c : Char) : List Char :=
  if c = '&' then "&amp;".toList
  else if c = '<' then "&lt;".toList
  else if c = '>' then "&gt;".toList
  else if c = '"' then "&quot;".toList
  else [c]

def escape (cs : List Char) : List Char := cs.flatMap escapeChar

def printAttribute (a : List Char × List Char) : List Char :=
  ' ' :: a.1 ++ '=' :: '"' :: escape a.2 ++ ['"']

def startTag (tag : List Char) (attributes : Attributes) : List Char :=
  '<' :: tag ++ attributes.flatMap printAttribute ++ ['>']

def stopTag (tag : List Char) : List Char := '<' :: '/' :: tag ++ ['>']

namespace Content

/-- The written form; the text of a raw tag stands as it is. -/
def print (raw : Bool) : Content → List Char
  | .empty => []
  | .text cs after => (if raw then cs else escape cs) ++ after.print raw
  | .element tag attributes inside after =>
    startTag tag attributes ++
      (if isVoidTag tag then [] else inside.print (isRawTag tag) ++ stopTag tag) ++ after.print raw

/-! ## Well-formed documents -/

def isTagLetter (c : Char) : Bool := ('a' ≤ c && c ≤ 'z') || Text.isAsciiDigit c

def isNameLetter (c : Char) : Bool := isTagLetter c || c == '-' || c == '_'

def startsWithText : Content → Bool
  | .text .. => true
  | _ => false

/-- The one text of a tag that holds nothing else. -/
def onlyText : Content → List Char
  | .text cs _ => cs
  | _ => []

/-- A tag has a name, attributes of different names, and only the content it may have. -/
structure TagFits (tag : List Char) (attributes : Attributes) (inside : Content) : Prop where
  named : tag ≠ []
  letters : ∀ c ∈ tag, isTagLetter c
  distinct : (attributes.map (·.1)).Nodup
  names : ∀ a ∈ attributes, a.1 ≠ [] ∧ ∀ c ∈ a.1, isNameLetter c
  void : isVoidTag tag → inside = .empty
  single : isTextTag tag → inside = .empty ∨ ∃ cs, inside = .text cs .empty
  /-- The text of a raw tag does not end the tag. -/
  raw : isRawTag tag → ¬ '<' :: '/' :: tag <:+: lowerAll inside.onlyText

/-- No text is empty or follows another, and every tag fits. -/
def WellFormed : Content → Prop
  | .empty => True
  | .text cs after => cs ≠ [] ∧ after.startsWithText = false ∧ after.WellFormed
  | .element tag attributes inside after =>
    TagFits tag attributes inside ∧ inside.WellFormed ∧ after.WellFormed

/-- The parts that the written form is read as. -/
def tokens : Content → List Token
  | .empty => []
  | .text cs after => .text cs :: after.tokens
  | .element tag attributes inside after =>
    (if isVoidTag tag then [.start tag attributes .none]
      else if isTextTag tag then [.start tag attributes (.text inside.onlyText)]
      else .start tag attributes .opened :: inside.tokens ++ [.stop tag]) ++ after.tokens

end Content

/-! ## References -/

theorem decodeFrom_length (cs rest : List Char) :
    decodeFrom cs.length (cs ++ rest) = decodeFrom 0 rest := by
  induction cs with
  | nil => rfl
  | cons c cs ih => exact ih

theorem decodeFrom_reference {n : List Char} {c : Char} (known : entity? n = some c)
    (free : n.all (· != ';')) (near : n.length ≤ 9) (bytes : Text.byteLength n ≤ 9)
    (rest : List Char) : decodeFrom 0 ('&' :: n ++ ';' :: rest) = c :: decodeFrom 0 rest := by
  have window : (n ++ ';' :: rest).take 10 = n ++ ';' :: rest.take (9 - n.length) := by
    rw [List.take_append, List.take_of_length_le (by omega)]
    congr 1
    rw [show 10 - n.length = 9 - n.length + 1 by omega, List.take_succ_cons]
  have found : reference? (n ++ ';' :: rest) = some (c, n.length) := by
    rw [reference?, window, List.takeWhile_append_of_pos (List.all_eq_true.mp free),
      List.takeWhile_cons_of_neg (by decide), List.append_nil, known]
    simp [bytes]
  have passed := decodeFrom_length (n ++ [';']) rest
  rw [List.length_append, List.length_singleton, List.append_assoc] at passed
  rw [List.cons_append, decodeFrom, if_pos rfl, found]
  exact congrArg (c :: ·) passed

theorem decodeFrom_escapeChar (c : Char) (rest : List Char) :
    decodeFrom 0 (escapeChar c ++ rest) = c :: decodeFrom 0 rest := by
  unfold escapeChar
  split_ifs with amp lt gt quot
  · subst amp
    exact decodeFrom_reference (n := "amp".toList) rfl (by decide) (by decide) (by decide) rest
  · subst lt
    exact decodeFrom_reference (n := "lt".toList) rfl (by decide) (by decide) (by decide) rest
  · subst gt
    exact decodeFrom_reference (n := "gt".toList) rfl (by decide) (by decide) (by decide) rest
  · subst quot
    exact decodeFrom_reference (n := "quot".toList) rfl (by decide) (by decide) (by decide) rest
  · exact if_neg amp

theorem decode_escape (cs : List Char) : decode (escape cs) = cs := by
  induction cs with
  | nil => rfl
  | cons c cs ih =>
      have step := decodeFrom_escapeChar c (escape cs)
      rw [decode, escape, List.flatMap_cons]
      exact step.trans (congrArg (c :: ·) ih)

/-- Characters that markup reads are escaped. -/
theorem plain_of_mem_escape {cs : List Char} {c : Char} (mem : c ∈ escape cs) :
    c ≠ '<' ∧ c ≠ '"' := by
  obtain ⟨x, -, mem⟩ := List.mem_flatMap.mp mem
  have plain : (escapeChar x).all fun c => c != '<' && c != '"' := by
    unfold escapeChar
    split_ifs with amp lt gt quot
    · decide
    · decide
    · decide
    · decide
    · simp [lt, quot]
  simpa using List.all_eq_true.mp plain c mem

theorem escape_ne_nil {cs : List Char} (some : cs ≠ []) : escape cs ≠ [] := by
  obtain ⟨c, rest, rfl⟩ := List.exists_cons_of_ne_nil some
  intro none
  have first : escapeChar c = [] := List.append_eq_nil_iff.mp none |>.1
  have escaped := decodeFrom_escapeChar c []
  rw [first] at escaped
  cases escaped

theorem asciiLower_ne {c : Char} (other : c ≠ '<') : Text.asciiLower c ≠ '<' := by
  unfold Text.asciiLower
  split_ifs with upper
  · have low : 65 ≤ c.toNat := UInt32.le_iff_toNat_le.mp upper.1
    have high : c.toNat ≤ 90 := UInt32.le_iff_toNat_le.mp upper.2
    have letters : ∀ k < 26, Char.ofNat (65 + k + 32) ≠ '<' := by decide
    rw [show c.toNat = 65 + (c.toNat - 65) by omega]
    exact letters _ (by omega)
  · exact other

theorem bracket_notMem_escape (cs : List Char) : '<' ∉ lowerAll (escape cs) := by
  intro mem
  obtain ⟨c, mem, eq⟩ := List.mem_map.mp mem
  exact asciiLower_ne (plain_of_mem_escape mem).1 eq

/-! ## Letters of names -/

theorem isTagChar_of_letter {c : Char} (letter : Content.isTagLetter c) : isTagChar c := by
  simp only [Content.isTagLetter, isTagChar, Text.isAsciiLetter, Bool.or_eq_true] at letter ⊢
  tauto

theorem isNameLetter_of_letter {c : Char} (letter : Content.isTagLetter c) :
    Content.isNameLetter c := by
  simp [Content.isNameLetter, letter]

theorem asciiLower_of_letter {c : Char} (letter : Content.isNameLetter c) :
    Text.asciiLower c = c := by
  refine if_neg fun upper => ?_
  have low : 65 ≤ c.toNat := UInt32.le_iff_toNat_le.mp upper.1
  have high : c.toNat ≤ 90 := UInt32.le_iff_toNat_le.mp upper.2
  simp only [Content.isNameLetter, Content.isTagLetter, Text.isAsciiDigit, Bool.or_eq_true,
    Bool.and_eq_true, decide_eq_true_eq, beq_iff_eq] at letter
  rcases letter with ((small | digit) | rfl) | rfl
  · have beyond : 97 ≤ c.toNat := UInt32.le_iff_toNat_le.mp small.1
    omega
  · have before : c.toNat ≤ 57 := UInt32.le_iff_toNat_le.mp digit.2
    omega
  · revert low
    decide
  · revert high
    decide

theorem lowerAll_of_letters {cs : List Char} (letters : ∀ c ∈ cs, Content.isNameLetter c) :
    lowerAll cs = cs := by
  rw [lowerAll, List.map_congr_left fun c mem => asciiLower_of_letter (letters c mem), List.map_id']

theorem lowerAll_of_tagLetters {cs : List Char} (letters : ∀ c ∈ cs, Content.isTagLetter c) :
    lowerAll cs = cs :=
  lowerAll_of_letters fun c mem => isNameLetter_of_letter (letters c mem)

theorem trim_of_letters {cs : List Char} (letters : ∀ c ∈ cs, Content.isTagLetter c) :
    Text.trim cs = cs := by
  have solid (c : Char) (mem : c ∈ cs) : ¬ Text.isBlank c := by
    have letter := letters c mem
    simp only [Content.isTagLetter, Bool.or_eq_true] at letter
    apply Text.not_blank_of_ascii
    simp only [Text.isAsciiLetter, Bool.or_eq_true]
    tauto
  cases some : cs with
  | nil => rfl
  | cons c rest =>
      rw [← some]
      have first : cs.head? = .some c := by rw [some, List.head?_cons]
      have last := List.getLast?_eq_some_getLast (l := cs) (some ▸ List.cons_ne_nil c rest)
      exact Text.trim_of_ends first (solid c (List.mem_of_mem_head? first)) last
        (solid _ (List.mem_of_mem_getLast? last))

/-- A letter of a name ends no name and is no blank. -/
theorem not_endsName_of_letter {c : Char} (letter : Content.isNameLetter c) :
    endsName c = false := by
  by_contra ends
  simp only [endsName, Text.isMarkupBlank, Bool.not_eq_false, Bool.or_eq_true, beq_iff_eq] at ends
  rcases ends with (((((((rfl | rfl) | rfl) | rfl) | rfl) | rfl) | rfl) | rfl) <;>
    revert letter <;> decide

end BrowserScript.Html
