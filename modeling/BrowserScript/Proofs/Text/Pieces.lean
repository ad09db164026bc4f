import BrowserScript.Text.Basic
import BrowserScript.Text.Search
import Mathlib.Data.List.DropRight
import Mathlib.Data.List.Infix
import Mathlib.Data.List.TakeWhile

/-!
Texts cut at a separator or at the first occurrence of a piece, and texts that are trimmed again.
-/

namespace BrowserScript.Text

variable {c : Char} {cs piece text before rest : List Char}

theorem splitOnFrom_eq (sep : Char) (piece cs : List Char) :
    splitOnFrom sep piece cs = List.splitOnPPrepend (· == sep) cs piece := by
  induction cs generalizing piece with
  | nil => rfl
  | cons c cs ih => simp [splitOnFrom, List.splitOnPPrepend, ih]

theorem splitOn_eq (sep : Char) (cs : List Char) : splitOn sep cs = cs.splitOn sep :=
  splitOnFrom_eq sep [] cs

theorem splitOn_ne_nil (sep : Char) (cs : List Char) : splitOn sep cs ≠ [] := by
  rw [splitOn_eq]
  exact List.splitOn_ne_nil sep cs

theorem notMem_of_mem_splitOnFrom {sep : Char} {piece cs p : List Char} (free : sep ∉ piece)
    (mem : p ∈ splitOnFrom sep piece cs) : sep ∉ p := by
  induction cs generalizing piece with
  | nil =>
      rw [List.mem_singleton.mp mem]
      simpa using free
  | cons c cs ih =>
      rw [splitOnFrom] at mem
      split at mem
      · obtain rfl | mem := List.mem_cons.mp mem
        · simpa using free
        · exact ih List.not_mem_nil mem
      · next other =>
          refine ih ?_ mem
          rw [List.mem_cons, not_or]
          exact ⟨fun same => other same.symm, free⟩

theorem notMem_of_mem_splitOn {sep : Char} {cs p : List Char} (mem : p ∈ splitOn sep cs) :
    sep ∉ p :=
  notMem_of_mem_splitOnFrom List.not_mem_nil mem

/-- Joined texts are the first of them, then each other one behind the separator. -/
theorem intercalate_map_cons {α : Type} (sep : List Char) (f : α → List Char) (first : α)
    (more : List α) : sep.intercalate ((first :: more).map f) =
      f first ++ more.flatMap fun x => sep ++ f x := by
  induction more generalizing first with
  | nil => simp
  | cons next more ih =>
      rw [List.map_cons, List.map_cons, List.intercalate_cons_cons, ← List.map_cons, ih next,
        List.flatMap_cons, List.append_assoc, List.append_assoc]

/-! ## Occurrences -/

theorem after?_eq_some_iff : after? piece text = some rest ↔ text = piece ++ rest := by
  induction piece generalizing text with
  | nil => simp [after?, eq_comm]
  | cons p ps ih =>
      cases text with
      | nil => simp [after?]
      | cons c cs =>
          rw [after?, List.cons_append, List.cons.injEq]
          split
          · next same => simp [same, ih]
          · next other => simp [Ne.symm other]

theorem after?_eq_none_iff : after? piece text = none ↔ ¬ piece <+: text := by
  rw [Option.eq_none_iff_forall_ne_some]
  constructor
  · rintro missing ⟨rest, split⟩
    exact missing rest (after?_eq_some_iff.mpr split.symm)
  · intro missing rest found
    exact missing ⟨rest, (after?_eq_some_iff.mp found).symm⟩

theorem splitAt?_cons_of_missing (missing : ¬ piece <+: c :: text) :
    splitAt? piece (c :: text) = (splitAt? piece text).map fun s => (c :: s.1, s.2) := by
  rw [splitAt?, after?_eq_none_iff.mpr missing]

theorem splitAt?_eq_none_iff : splitAt? piece text = none ↔ ¬ piece <:+: text := by
  induction text with
  | nil =>
      rw [splitAt?, Option.map_eq_none_iff, after?_eq_none_iff, List.prefix_nil, List.infix_nil]
  | cons c cs ih =>
      rw [List.infix_cons_iff, not_or, ← ih]
      by_cases here : piece <+: c :: cs
      · obtain ⟨rest, split⟩ := here
        rw [splitAt?, after?_eq_some_iff.mpr split.symm]
        simp [← split]
      · simp [splitAt?_cons_of_missing here, here]

/-- The first occurrence of a piece. -/
theorem eq_of_splitAt? (some : piece ≠ []) (found : splitAt? piece text = .some (before, rest)) :
    text = before ++ (piece ++ rest) ∧ ¬ piece <:+: before := by
  induction text generalizing before with
  | nil =>
      rw [splitAt?, Option.map_eq_some_iff] at found
      obtain ⟨r, here, -⟩ := found
      exact absurd (List.append_eq_nil_iff.mp (after?_eq_some_iff.mp here).symm).1 some
  | cons c cs ih =>
      by_cases here : piece <+: c :: cs
      · obtain ⟨r, split⟩ := here
        rw [splitAt?, after?_eq_some_iff.mpr split.symm] at found
        cases found
        exact ⟨split.symm, fun inside => some (List.infix_nil.mp inside)⟩
      · rw [splitAt?_cons_of_missing here, Option.map_eq_some_iff] at found
        obtain ⟨⟨before, r⟩, found, same⟩ := found
        cases same
        obtain ⟨whole, free⟩ := ih found
        refine ⟨congrArg (c :: ·) whole, fun inside => ?_⟩
        rcases List.infix_cons_iff.mp inside with first | later
        · rw [whole] at here
          exact here (first.trans (List.prefix_append (c :: before) _))
        · exact free later

/-- A text is split at the first occurrence of a character. -/
theorem splitAt?_singleton (free : c ∉ before) (text : List Char) :
    splitAt? [c] (before ++ c :: text) = some (before, text) := by
  induction before with
  | nil => rw [List.nil_append, splitAt?, after?_eq_some_iff.mpr List.singleton_append.symm]
  | cons d ds ih =>
      rw [List.mem_cons, not_or] at free
      have missing : ¬ [c] <+: d :: (ds ++ c :: text) := by
        rintro ⟨rest, split⟩
        exact free.1 (List.cons.inj split).1
      rw [List.cons_append, splitAt?_cons_of_missing missing, ih free.2]
      rfl

/-- No occurrence reaches over a character that the piece does not have. -/
theorem splitAt?_append (free : ¬ piece <:+: before) (other : c ∉ piece) (some : piece ≠ []) :
    splitAt? piece (before ++ c :: text) =
      (splitAt? piece text).map fun s => (before ++ c :: s.1, s.2) := by
  induction before with
  | nil =>
      refine splitAt?_cons_of_missing ?_
      rintro ⟨rest, split⟩
      obtain ⟨p, ps, rfl⟩ := List.exists_cons_of_ne_nil some
      exact other ((List.cons.inj split).1 ▸ List.mem_cons_self)
  | cons d ds ih =>
      rw [List.infix_cons_iff, not_or] at free
      have missing : ¬ piece <+: d :: (ds ++ c :: text) := by
        intro here
        have upTo : d :: ds ++ [c] <+: d :: (ds ++ c :: text) := ⟨text, by simp⟩
        rcases List.prefix_or_prefix_of_prefix here upTo with short | long
        · rcases List.prefix_concat_iff.mp short with rfl | short
          · exact other (by simp)
          · exact free.1 short
        · exact other (long.sublist.mem (by simp))
      rw [List.cons_append, splitAt?_cons_of_missing missing, ih free.2, Option.map_map]
      rfl

/-! ## Trimming -/

theorem trim_eq (cs : List Char) : trim cs = (cs.dropWhile isBlank).rdropWhile isBlank := rfl

/-- A trimmed text does not begin with a blank. -/
theorem solid_of_head_trim (first : (trim cs).head? = some c) : ¬ isBlank c := by
  obtain ⟨rest, split⟩ := List.head?_eq_some_iff.mp first
  obtain ⟨back, whole⟩ := List.rdropWhile_prefix isBlank (cs.dropWhile isBlank)
  rw [← trim_eq, split, List.cons_append] at whole
  have stop := List.head?_dropWhile_not isBlank cs
  rw [← whole, List.head?_cons] at stop
  simpa using stop

theorem dropWhile_trim (cs : List Char) : (trim cs).dropWhile isBlank = trim cs := by
  cases h : trim cs with
  | nil => rfl
  | cons c rest =>
      exact List.dropWhile_cons_of_neg (solid_of_head_trim (by rw [h, List.head?_cons]))

theorem trim_blanks_append {bs : List Char} (blank : ∀ c ∈ bs, isBlank c) (cs : List Char) :
    trim (bs ++ cs) = trim cs := by
  rw [trim_eq, trim_eq, List.dropWhile_append_of_pos blank]

/-- Blanks before a trimmed text are all that trimming takes from it. -/
theorem trim_blanks_append_trim {bs : List Char} (blank : ∀ c ∈ bs, isBlank c) (cs : List Char) :
    trim (bs ++ trim cs) = trim cs := by
  rw [trim_blanks_append blank, trim_eq, dropWhile_trim, trim_eq, List.rdropWhile_idempotent]

theorem trim_append_blanks {bs : List Char} (blank : ∀ c ∈ bs, isBlank c) (cs : List Char) :
    trim (cs ++ bs) = trim cs := by
  have none : bs.dropWhile isBlank = [] := List.dropWhile_eq_nil_iff.mpr blank
  have back : ∀ c ∈ bs.reverse, isBlank c := fun c there => blank c (List.mem_reverse.mp there)
  rw [trim, trim, trimStart, trimStart, List.dropWhile_append, none]
  split
  · next empty => rw [List.isEmpty_iff.mp empty]
  · rw [trimEnd, trimEnd, List.reverse_append, List.dropWhile_append_of_pos back]

/-- A text that is not blank has a last character that is none. -/
theorem exists_last_solid (solid : trim cs ≠ []) :
    ∃ ds d bs, cs = ds ++ d :: bs ∧ ¬ isBlank d ∧ ∀ b ∈ bs, isBlank b := by
  induction cs using List.reverseRecOn with
  | nil => exact absurd rfl solid
  | append_singleton cs c ih =>
      by_cases blank : isBlank c
      · rw [trim_append_blanks (by simpa using blank)] at solid
        obtain ⟨ds, d, bs, rfl, stop, blanks⟩ := ih solid
        refine ⟨ds, d, bs ++ [c], by simp, stop, ?_⟩
        exact List.forall_mem_append.mpr ⟨blanks, by simpa using blank⟩
      · exact ⟨cs, c, [], rfl, blank, by simp⟩

theorem mem_of_mem_trim (there : c ∈ trim cs) : c ∈ cs :=
  (List.dropWhile_sublist isBlank).mem ((List.rdropWhile_prefix _ _).sublist.mem there)

end BrowserScript.Text
