import BrowserScript.Text.Search
import Mathlib.Data.List.TakeWhile

/-!
Texts as bytes of UTF-8. A place in a text is a number of bytes. Parts of a text are taken between
places where characters begin or the text ends; a byte of an ASCII character is always at such a
place.
-/

namespace BrowserScript.Text

variable {c : Char} {cs front part rest text : List Char} {i j : Nat} {b : UInt8}

def bytes (cs : List Char) : List UInt8 := cs.flatMap String.utf8EncodeChar

/-! ## Parts -/

/-- A text before and after a place; none if that is within a character or behind the text. -/
def cut? : List Char → Nat → Option (List Char × List Char)
  | cs, 0 => some ([], cs)
  | [], _ + 1 => none
  | c :: cs, i + 1 =>
    if c.utf8Size ≤ i + 1 then
      (cut? cs (i + 1 - c.utf8Size)).map fun parts => (c :: parts.1, parts.2)
    else none

/-- The part of a text between two places, which have to be in order. -/
def slice? (cs : List Char) (i j : Nat) : Option (List Char) :=
  if i ≤ j then (cut? cs j).bind fun parts => (cut? parts.1 i).map (·.2) else none

def sliceFrom? (cs : List Char) (i : Nat) : Option (List Char) := (cut? cs i).map (·.2)

/-! ## Single bytes

A byte is shown as the character of its number. -/

/-- The byte at a place, which has to be within the text. -/
def byteAt? (bs : List UInt8) (i : Nat) : Option Char := bs[i]?.map Char.ofUInt8

/-- The place of the first occurrence of a byte from a place on, which must not be behind the
text. -/
def findByte? (bs : List UInt8) (i : Nat) (c : Char) : Option (Option Nat) :=
  if i ≤ bs.length then
    some (((bs.drop i).findIdx? (Char.ofUInt8 · == c)).map (i + ·))
  else none

/-- The place of the first occurrence of a piece. -/
def findText? (piece cs : List Char) : Option Nat :=
  (splitAt? piece cs).map fun parts => byteLength parts.1

/-! ## Lengths -/

theorem foldl_byteLength (cs : List Char) (n : Nat) :
    cs.foldl (fun n c => n + c.utf8Size) n = n + byteLength cs := by
  induction cs generalizing n with
  | nil => rfl
  | cons c cs ih =>
      rw [byteLength, List.foldl_cons, List.foldl_cons, ih, ih, Nat.zero_add, Nat.add_assoc]

@[simp] theorem byteLength_nil : byteLength [] = 0 := rfl

@[simp] theorem byteLength_cons (c : Char) (cs : List Char) :
    byteLength (c :: cs) = c.utf8Size + byteLength cs := by
  rw [byteLength, List.foldl_cons, Nat.zero_add, foldl_byteLength]

@[simp] theorem byteLength_append (xs ys : List Char) :
    byteLength (xs ++ ys) = byteLength xs + byteLength ys := by
  induction xs with
  | nil => rw [List.nil_append, byteLength_nil, Nat.zero_add]
  | cons c xs ih => rw [List.cons_append, byteLength_cons, byteLength_cons, ih, Nat.add_assoc]

theorem length_le_byteLength (cs : List Char) : cs.length ≤ byteLength cs := by
  induction cs with
  | nil => exact Nat.le_refl 0
  | cons c cs ih =>
      have some := Char.utf8Size_pos c
      rw [List.length_cons, byteLength_cons]
      omega

theorem byteLength_le_of_suffix {xs ys : List Char} (suffix : xs <:+ ys) :
    byteLength xs ≤ byteLength ys := by
  obtain ⟨before, rfl⟩ := suffix
  rw [byteLength_append]
  exact Nat.le_add_left _ _

theorem bytes_cons (c : Char) (cs : List Char) :
    bytes (c :: cs) = String.utf8EncodeChar c ++ bytes cs := List.flatMap_cons

theorem bytes_append (xs ys : List Char) : bytes (xs ++ ys) = bytes xs ++ bytes ys :=
  List.flatMap_append

@[simp] theorem length_bytes (cs : List Char) : (bytes cs).length = byteLength cs := by
  induction cs with
  | nil => rfl
  | cons c cs ih =>
      rw [bytes_cons, List.length_append, String.length_utf8EncodeChar, ih, byteLength_cons]

/-! ## Cutting -/

theorem cut?_append (front rest : List Char) :
    cut? (front ++ rest) (byteLength front) = some (front, rest) := by
  induction front with
  | nil => simp [cut?]
  | cons c front ih =>
      have some := Char.utf8Size_pos c
      obtain ⟨k, long⟩ : ∃ k, c.utf8Size + byteLength front = k + 1 :=
        Nat.exists_eq_succ_of_ne_zero (by omega)
      have left : k + 1 - c.utf8Size = byteLength front := by omega
      rw [List.cons_append, byteLength_cons, long, cut?, if_pos (by omega), left, ih]
      rfl

theorem eq_of_cut? (cut : cut? text i = some (front, rest)) :
    text = front ++ rest ∧ byteLength front = i := by
  fun_induction cut? text i generalizing front with
  | case1 cs =>
      obtain ⟨rfl, rfl⟩ := Prod.mk.inj (Option.some.inj cut)
      exact ⟨rfl, rfl⟩
  | case2 => cases cut
  | case3 c cs i within ih =>
      obtain ⟨⟨before, after⟩, found, parts⟩ := Option.map_eq_some_iff.mp cut
      obtain ⟨rfl, rfl⟩ := Prod.mk.inj parts
      obtain ⟨rfl, long⟩ := ih found
      exact ⟨rfl, by rw [byteLength_cons, long]; omega⟩
  | case4 => cases cut

/-- A text can be cut exactly where a character begins or the text ends. -/
theorem cut?_eq_some :
    cut? text i = some (front, rest) ↔ text = front ++ rest ∧ byteLength front = i := by
  refine ⟨eq_of_cut?, ?_⟩
  rintro ⟨rfl, rfl⟩
  exact cut?_append front rest

theorem slice?_append (front part rest : List Char) :
    slice? (front ++ part ++ rest) (byteLength front) (byteLength front + byteLength part) =
      some part := by
  rw [slice?, if_pos (Nat.le_add_right _ _), ← byteLength_append, cut?_append, Option.bind_some,
    cut?_append]
  rfl

/-- A part can be taken exactly between places in order where the text can be cut. -/
theorem slice?_eq_some : slice? text i j = some part ↔
    ∃ front rest, text = front ++ part ++ rest ∧ byteLength front = i ∧
      i + byteLength part = j := by
  constructor
  · intro taken
    unfold slice? at taken
    split_ifs at taken with order
    obtain ⟨⟨before, after⟩, cut, taken⟩ := Option.bind_eq_some_iff.mp taken
    obtain ⟨⟨front, _⟩, inner, rfl⟩ := Option.map_eq_some_iff.mp taken
    obtain ⟨rfl, long⟩ := eq_of_cut? cut
    obtain ⟨rfl, start⟩ := eq_of_cut? inner
    exact ⟨front, after, rfl, start, by rw [← long, byteLength_append, start]⟩
  · rintro ⟨front, rest, rfl, rfl, rfl⟩
    exact slice?_append front part rest

/-- A part has the bytes between its places. -/
theorem bytes_of_slice? (taken : slice? text i j = some part) :
    bytes part = ((bytes text).drop i).take (j - i) := by
  obtain ⟨front, rest, rfl, rfl, rfl⟩ := slice?_eq_some.mp taken
  rw [List.append_assoc, bytes_append, List.drop_left' (length_bytes front), bytes_append,
    Nat.add_sub_cancel_left, List.take_left' (length_bytes part)]

/-! ## ASCII -/

def isAscii (c : Char) : Bool := c.toNat < 0x80

theorem utf8EncodeChar_ascii (ascii : isAscii c) :
    String.utf8EncodeChar c = [UInt8.ofNat c.toNat] := by
  have less : c.val.toNat ≤ 127 := Nat.le_of_lt_succ (of_decide_eq_true ascii)
  unfold String.utf8EncodeChar
  exact if_pos less

theorem utf8Size_ascii (ascii : isAscii c) : c.utf8Size = 1 := by
  rw [← String.length_utf8EncodeChar, utf8EncodeChar_ascii ascii, List.length_singleton]

theorem toNat_ofUInt8 (b : UInt8) : (Char.ofUInt8 b).toNat = b.toNat := UInt8.toNat_toUInt32 b

theorem ofUInt8_ascii (ascii : isAscii c) : Char.ofUInt8 (UInt8.ofNat c.toNat) = c := by
  have less : c.toNat < 0x80 := of_decide_eq_true ascii
  apply Char.toNat_inj.mp
  rw [toNat_ofUInt8, UInt8.toNat_ofNat']
  omega

/-- No byte of another character looks like an ASCII character. -/
theorem not_isAscii_of_mem (other : isAscii c = false) (mem : b ∈ String.utf8EncodeChar c) :
    isAscii (Char.ofUInt8 b) = false := by
  have more : ¬ c.val.toNat ≤ 127 := fun less =>
    absurd other (Bool.not_eq_false _ ▸ decide_eq_true (Nat.lt_succ_of_le less))
  have high : 0x80 ≤ b.toNat := by
    simp only [String.utf8EncodeChar, if_neg more] at mem
    split_ifs at mem <;> simp only [List.mem_cons, List.not_mem_nil, or_false] at mem
    all_goals
      obtain rfl | rfl | rfl | rfl := mem
      all_goals simp only [UInt8.toNat_ofNat']; omega
  rw [isAscii, toNat_ofUInt8, decide_eq_false_iff_not]
  omega

/-- A test that takes all characters beyond ASCII for the same. -/
def IsAsciiTest (p : Char → Bool) : Prop := ∃ v, ∀ c, isAscii c = false → p c = v

theorem isAsciiTest_of_ascii {p : Char → Bool} (ascii : ∀ c, p c → isAscii c) : IsAsciiTest p :=
  ⟨false, fun c other => Bool.eq_false_iff.mpr fun pass =>
    Bool.false_ne_true (other.symm.trans (ascii c pass))⟩

theorem isAsciiTest_beq (ascii : isAscii c) : IsAsciiTest (· == c) :=
  isAsciiTest_of_ascii fun _ same => eq_of_beq same ▸ ascii

theorem IsAsciiTest.not {p : Char → Bool} (test : IsAsciiTest p) : IsAsciiTest (!p ·) := by
  obtain ⟨v, same⟩ := test
  exact ⟨!v, fun c other => congrArg (!·) (same c other)⟩

/-- The bytes of a character pass a test as the character does. -/
theorem IsAsciiTest.byte {p : Char → Bool} (test : IsAsciiTest p)
    (mem : b ∈ String.utf8EncodeChar c) : p (Char.ofUInt8 b) = p c := by
  cases ascii : isAscii c with
  | true =>
      rw [utf8EncodeChar_ascii ascii] at mem
      rw [List.mem_singleton.mp mem, ofUInt8_ascii ascii]
  | false =>
      obtain ⟨v, same⟩ := test
      rw [same _ (not_isAscii_of_mem ascii mem), same c ascii]

theorem takeWhile_bytes {p : Char → Bool} (test : IsAsciiTest p) (cs : List Char) :
    (bytes cs).takeWhile (p <| Char.ofUInt8 ·) = bytes (cs.takeWhile p) := by
  induction cs with
  | nil => rfl
  | cons c cs ih =>
      have each : ∀ b ∈ String.utf8EncodeChar c, p (Char.ofUInt8 b) = p c := fun b => test.byte
      rw [bytes_cons]
      cases pass : p c with
      | true =>
          rw [List.takeWhile_append_of_pos fun b mem => (each b mem).trans pass, ih,
            List.takeWhile_cons_of_pos pass, bytes_cons]
      | false =>
          obtain ⟨b, more, encoded⟩ :=
            List.exists_cons_of_ne_nil (String.utf8EncodeChar_ne_nil (c := c))
          have first : ¬ p (Char.ofUInt8 b) := by
            rw [each b (encoded ▸ List.mem_cons_self), pass]
            exact Bool.false_ne_true
          rw [@List.takeWhile_cons_of_neg _ p c cs (by simp [pass]), encoded, List.cons_append]
          exact List.takeWhile_cons_of_neg first

theorem findIdx?_bytes (ascii : isAscii c) (cs : List Char) :
    (bytes cs).findIdx? (Char.ofUInt8 · == c) =
      if c ∈ cs then some (byteLength (cs.takeWhile (· != c))) else none := by
  induction cs with
  | nil => rfl
  | cons x cs ih =>
      rw [bytes_cons, List.findIdx?_append, ih]
      by_cases same : x = c
      · subst same
        simp [utf8EncodeChar_ascii ascii, ofUInt8_ascii ascii]
      · have each : (String.utf8EncodeChar x).findIdx? (Char.ofUInt8 · == c) = none := by
          refine List.findIdx?_eq_none_iff.mpr fun b mem => ?_
          rw [(isAsciiTest_beq ascii).byte mem]
          exact beq_eq_false_iff_ne.mpr same
        have others : c ∈ x :: cs ↔ c ∈ cs := List.mem_cons.trans (or_iff_right (Ne.symm same))
        rw [each, Option.none_or, List.takeWhile_cons_of_pos (by simpa using same),
          String.length_utf8EncodeChar, byteLength_cons, if_congr others rfl rfl]
        split_ifs
        · rw [Option.map_some, Nat.add_comm]
        · rfl

/-! ## Places -/

/-- A text goes on with `rest` from a place on. -/
def At (text : List Char) (i : Nat) (rest : List Char) : Prop :=
  ∃ front, text = front ++ rest ∧ byteLength front = i

namespace At

theorem first (text : List Char) : At text 0 text := ⟨[], rfl, rfl⟩

theorem last (text : List Char) : At text (byteLength text) [] :=
  ⟨text, (List.append_nil text).symm, rfl⟩

theorem byteLength (here : At text i rest) : byteLength text = i + byteLength rest := by
  obtain ⟨front, rfl, rfl⟩ := here
  exact byteLength_append front rest

/-- The place where more is left comes first. -/
theorem le {left : List Char} (here : At text i rest) (there : At text j left)
    (less : left.length ≤ rest.length) : i ≤ j := by
  obtain ⟨front, split, rfl⟩ := here
  obtain ⟨front', split', rfl⟩ := there
  obtain ⟨between, rfl⟩ := List.suffix_of_suffix_length_le ⟨front', split'.symm⟩ ⟨front, split.symm⟩
    less
  rw [← List.append_assoc] at split
  rw [List.append_cancel_right (split'.symm.trans split), byteLength_append]
  exact Nat.le_add_right _ _

theorem after (here : At text i (part ++ rest)) : At text (i + Text.byteLength part) rest := by
  obtain ⟨front, rfl, rfl⟩ := here
  exact ⟨front ++ part, (List.append_assoc front part rest).symm, byteLength_append front part⟩

theorem next (here : At text i (c :: rest)) (ascii : isAscii c) : At text (i + 1) rest := by
  have split : At text i ([c] ++ rest) := here
  have there := split.after
  rwa [byteLength_cons, utf8Size_ascii ascii, byteLength_nil] at there

theorem slice? (here : At text i (part ++ rest)) :
    slice? text i (i + Text.byteLength part) = some part := by
  obtain ⟨front, rfl, rfl⟩ := here
  rw [← List.append_assoc]
  exact slice?_append front part rest

theorem sliceFrom? (here : At text i rest) : sliceFrom? text i = some rest := by
  obtain ⟨front, rfl, rfl⟩ := here
  rw [Text.sliceFrom?, cut?_append]
  rfl

theorem drop_bytes (here : At text i rest) : (bytes text).drop i = bytes rest := by
  obtain ⟨front, rfl, rfl⟩ := here
  rw [bytes_append, List.drop_left' (length_bytes front)]

/-- The bytes of the character at the place pass every test as the character does. -/
theorem byteAt?_within (here : At text i (c :: rest)) (inside : j < c.utf8Size) :
    ∃ x, byteAt? (bytes text) (i + j) = some x ∧ ∀ p, IsAsciiTest p → p x = p c := by
  have own : j < (String.utf8EncodeChar c).length := by rwa [String.length_utf8EncodeChar]
  have found : (bytes text)[i + j]? = some (String.utf8EncodeChar c)[j] := by
    rw [← List.getElem?_drop, here.drop_bytes, bytes_cons, List.getElem?_append_left own,
      List.getElem?_eq_getElem own]
  refine ⟨_, by rw [byteAt?, found, Option.map_some], fun p test => ?_⟩
  exact test.byte (List.getElem_mem own)

theorem byteAt? (here : At text i (c :: rest)) :
    ∃ x, byteAt? (bytes text) i = some x ∧ ∀ p, IsAsciiTest p → p x = p c :=
  here.byteAt?_within (Char.utf8Size_pos c)

theorem byteAt?_ascii (here : At text i (c :: rest)) (ascii : isAscii c) :
    Text.byteAt? (bytes text) i = some c := by
  obtain ⟨x, byte, same⟩ := here.byteAt?
  rw [byte, eq_of_beq ((same (· == c) (isAsciiTest_beq ascii)).trans (beq_self_eq_true c))]

/-- The bytes of another character are no ASCII character that the character is not. -/
theorem byteAt?_ne (here : At text i (c :: rest)) (inside : j < c.utf8Size) :
    ∃ x, Text.byteAt? (bytes text) (i + j) = some x ∧ ∀ d, isAscii d → c ≠ d → x ≠ d := by
  obtain ⟨x, byte, same⟩ := here.byteAt?_within inside
  refine ⟨x, byte, fun d ascii other eq => other ?_⟩
  exact eq_of_beq ((same (· == d) (isAsciiTest_beq ascii)).symm.trans (beq_iff_eq.mpr eq))

theorem findByte? (here : At text i rest) (ascii : isAscii c) :
    findByte? (bytes text) i c =
      some (if c ∈ rest then some (i + Text.byteLength (rest.takeWhile (· != c))) else none) := by
  have within : i ≤ (bytes text).length := by
    rw [length_bytes, here.byteLength]
    omega
  rw [Text.findByte?, if_pos within, here.drop_bytes, findIdx?_bytes ascii]
  split_ifs <;> rfl

end At

theorem at_of_slice? (taken : slice? text i j = some part) : ∃ rest, At text j rest := by
  obtain ⟨front, rest, rfl, start, stop⟩ := slice?_eq_some.mp taken
  exact ⟨rest, front ++ part, rfl, by rw [byteLength_append, start, stop]⟩

/-! ## Where characters begin -/

/-- Bytes that begin no character. -/
def isContinuation (b : UInt8) : Bool := 0x80 ≤ b.toNat && b.toNat < 0xC0

/-- All bytes of a character but the first continue it. -/
theorem isContinuation_iff (found : (String.utf8EncodeChar c)[j]? = some b) :
    isContinuation b ↔ j ≠ 0 := by
  simp only [String.utf8EncodeChar] at found
  rw [isContinuation, Bool.and_eq_true, decide_eq_true_eq, decide_eq_true_eq]
  split_ifs at found <;> rcases j with _ | _ | _ | _ | j <;>
    simp only [List.getElem?_cons_zero, List.getElem?_cons_succ, List.getElem?_nil,
      Option.some.injEq, reduceCtorEq] at found
  all_goals
    subst found
    simp only [UInt8.toNat_ofNat']
    omega

/-- Every byte is in a character. -/
theorem exists_char_of_byte (found : (bytes text)[i]? = some b) :
    ∃ c k rest, At text k (c :: rest) ∧
      ∃ j, i = k + j ∧ (String.utf8EncodeChar c)[j]? = some b := by
  induction text generalizing i with
  | nil => cases found
  | cons x text ih =>
      rw [bytes_cons] at found
      by_cases within : i < (String.utf8EncodeChar x).length
      · rw [List.getElem?_append_left within] at found
        exact ⟨x, 0, text, At.first _, i, (Nat.zero_add i).symm, found⟩
      · rw [List.getElem?_append_right (Nat.not_lt.mp within)] at found
        obtain ⟨c, k, rest, ⟨front, rfl, long⟩, j, place, own⟩ := ih found
        refine ⟨c, x.utf8Size + k, rest, ⟨x :: front, rfl, ?_⟩, j, ?_, own⟩
        · rw [byteLength_cons, long]
        · rw [← String.length_utf8EncodeChar]
          omega

/-- A text can be cut at its end and at every byte that begins a character. -/
theorem isSome_cut?_iff : (cut? text i).isSome ↔
    i = byteLength text ∨ ∃ b, (bytes text)[i]? = some b ∧ ¬ isContinuation b := by
  constructor
  · intro cut
    obtain ⟨⟨front, rest⟩, cut⟩ := Option.isSome_iff_exists.mp cut
    obtain ⟨rfl, rfl⟩ := eq_of_cut? cut
    cases rest with
    | nil => exact .inl (by rw [List.append_nil])
    | cons c rest =>
        have here : At (front ++ c :: rest) (byteLength front) (c :: rest) := ⟨front, rfl, rfl⟩
        obtain ⟨b, more, encoded⟩ :=
          List.exists_cons_of_ne_nil (String.utf8EncodeChar_ne_nil (c := c))
        refine .inr ⟨b, ?_, fun inner => ?_⟩
        · rw [← List.head?_drop, here.drop_bytes, bytes_cons, encoded]
          rfl
        · exact (isContinuation_iff (j := 0) (by rw [encoded]; rfl)).mp inner rfl
  · rintro (rfl | ⟨b, found, first⟩)
    · have whole := cut?_append text []
      rw [List.append_nil] at whole
      rw [whole]
      rfl
    · obtain ⟨c, k, rest, ⟨front, rfl, rfl⟩, j, rfl, own⟩ := exists_char_of_byte found
      have start : j = 0 := by
        by_contra inner
        exact first ((isContinuation_iff own).mpr inner)
      rw [start, Nat.add_zero, cut?_append]
      rfl

/-- A character begins wherever an ASCII byte is. -/
theorem at_of_byteAt? (found : byteAt? (bytes text) i = some c) (ascii : isAscii c) :
    ∃ rest, At text i (c :: rest) := by
  obtain ⟨b, there, rfl⟩ := Option.map_eq_some_iff.mp found
  obtain ⟨x, k, rest, here, j, rfl, own⟩ := exists_char_of_byte there
  have mem : b ∈ String.utf8EncodeChar x := List.mem_of_getElem? own
  have single : isAscii x := by
    by_contra other
    cases ascii.symm.trans (not_isAscii_of_mem (Bool.eq_false_iff.mpr other) mem)
  have inside : j < (String.utf8EncodeChar x).length := (List.getElem?_eq_some_iff.mp own).1
  rw [utf8EncodeChar_ascii single] at mem inside
  have start : j = 0 := Nat.lt_one_iff.mp inside
  rw [start, List.mem_singleton.mp mem, ofUInt8_ascii single]
  exact ⟨rest, here⟩

end BrowserScript.Text
