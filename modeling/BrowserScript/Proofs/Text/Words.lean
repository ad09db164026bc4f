import BrowserScript.Text.Basic
import BrowserScript.Text.Letter
import BrowserScript.Text.Lowercase
import BrowserScript.Text.Search

/-!
The words of a text that is put together at blanks, the text its words make, the ends of a trimmed
text, and the lower case of plain texts.
-/

namespace BrowserScript.Text

variable {c : Char} {cs : List Char}

theorem toNat_of_isBlank (blank : isBlank c) : c.toNat ≤ 32 ∨ 133 ≤ c.toNat := by
  simp only [isBlank, Bool.or_eq_true, Bool.and_eq_true, decide_eq_true_eq, beq_iff_eq] at blank
  omega

theorem not_blank_of_ascii (ascii : isAsciiLetter c ∨ isAsciiDigit c) : ¬ isBlank c := by
  intro blank
  have far := toNat_of_isBlank blank
  simp only [isAsciiLetter, isAsciiDigit, Bool.or_eq_true, Bool.and_eq_true, decide_eq_true_eq,
    Char.le_def, UInt32.le_iff_toNat_le] at ascii
  change (97 ≤ c.toNat ∧ c.toNat ≤ 122 ∨ 65 ≤ c.toNat ∧ c.toNat ≤ 90) ∨
    48 ≤ c.toNat ∧ c.toNat ≤ 57 at ascii
  omega

theorem wordsFrom_append_blank (blank : isBlank c) (word xs cs : List Char) :
    wordsFrom word (xs ++ c :: cs) = wordsFrom word xs ++ words cs := by
  induction xs generalizing word with
  | nil => cases word <;> simp [wordsFrom, words, blank]
  | cons x xs ih =>
      cases h : isBlank x <;> cases word <;> simp [wordsFrom, h, ih]

theorem words_append_blank (blank : isBlank c) (xs cs : List Char) :
    words (xs ++ c :: cs) = words xs ++ words cs :=
  wordsFrom_append_blank blank [] xs cs

theorem words_append_blanks {bs : List Char} (ne : bs ≠ []) (blank : ∀ c ∈ bs, isBlank c)
    (xs cs : List Char) : words (xs ++ (bs ++ cs)) = words xs ++ words cs := by
  induction bs generalizing xs with
  | nil => exact absurd rfl ne
  | cons b bs ih =>
      obtain ⟨first, blank⟩ := List.forall_mem_cons.mp blank
      rw [List.cons_append, words_append_blank first]
      cases bs with
      | nil => rfl
      | cons d ds =>
          exact congrArg (words xs ++ ·) (ih (List.cons_ne_nil d ds) blank [])

theorem words_blanks_append {bs : List Char} (blank : ∀ c ∈ bs, isBlank c) (cs : List Char) :
    words (bs ++ cs) = words cs := by
  cases bs with
  | nil => rfl
  | cons b bs => exact words_append_blanks (List.cons_ne_nil b bs) blank [] cs

theorem words_append_of_blanks {bs : List Char} (blank : ∀ c ∈ bs, isBlank c) (cs : List Char) :
    words (cs ++ bs) = words cs := by
  cases bs with
  | nil => rw [List.append_nil]
  | cons b bs =>
      have last := words_append_blanks (List.cons_ne_nil b bs) blank cs []
      rwa [List.append_nil, show words [] = [] from rfl, List.append_nil] at last

theorem wordsFrom_of_solid {word : List Char} (ne : word ++ cs ≠ [])
    (solid : ∀ c ∈ cs, ¬ isBlank c) : wordsFrom word cs = [word.reverse ++ cs] := by
  induction cs generalizing word with
  | nil =>
      have begun : word ≠ [] := by simpa using ne
      simp [wordsFrom, begun]
  | cons c cs ih =>
      obtain ⟨first, solid⟩ := List.forall_mem_cons.mp solid
      rw [wordsFrom, if_neg first, ih (List.cons_ne_nil c _) solid, List.reverse_cons,
        List.append_assoc]
      rfl

theorem words_of_solid (ne : cs ≠ []) (solid : ∀ c ∈ cs, ¬ isBlank c) : words cs = [cs] :=
  wordsFrom_of_solid ne solid

theorem wordsFrom_ne_nil {word : List Char} (begun : word ≠ [] ∨ ∃ c ∈ cs, ¬ isBlank c) :
    wordsFrom word cs ≠ [] := by
  induction cs generalizing word with
  | nil =>
      have ne : word ≠ [] := by simpa using begun
      simp [wordsFrom, ne]
  | cons c cs ih =>
      rw [wordsFrom]
      split
      · next blank =>
          split
          · next empty =>
              refine ih (.inr ?_)
              rcases begun with ne | ⟨d, there, solid⟩
              · exact absurd (by simpa using empty) ne
              · rcases List.mem_cons.mp there with rfl | there
                · exact absurd blank solid
                · exact ⟨d, there, solid⟩
          · exact List.cons_ne_nil _ _
      · exact ih (.inl (List.cons_ne_nil c word))

theorem words_ne_nil (there : c ∈ cs) (solid : ¬ isBlank c) : words cs ≠ [] :=
  wordsFrom_ne_nil (.inr ⟨c, there, solid⟩)

/-- A text has as many words as its beginning, or more. -/
theorem length_words_append (xs ys : List Char) :
    (words xs).length ≤ (words (xs ++ ys)).length := by
  suffices from_ : ∀ word, (wordsFrom word xs).length ≤ (wordsFrom word (xs ++ ys)).length from
    from_ []
  induction xs with
  | nil =>
      intro word
      cases word with
      | nil => exact Nat.zero_le _
      | cons c word =>
          exact List.length_pos_iff.mpr (wordsFrom_ne_nil (.inl (List.cons_ne_nil c word)))
  | cons x xs ih =>
      intro word
      cases h : isBlank x <;> cases word <;> simp [wordsFrom, h, ih]

theorem mem_of_mem_wordsFrom {word w : List Char} (mem : w ∈ wordsFrom word cs) (there : c ∈ w) :
    c ∈ word ∨ c ∈ cs := by
  induction cs generalizing word with
  | nil =>
      rw [wordsFrom] at mem
      split at mem
      · exact absurd mem List.not_mem_nil
      · rw [List.mem_singleton.mp mem, List.mem_reverse] at there
        exact .inl there
  | cons d cs ih =>
      rw [wordsFrom] at mem
      split at mem
      · split at mem
        · rcases ih mem with there | there
          · exact absurd there List.not_mem_nil
          · exact .inr (List.mem_cons_of_mem d there)
        · rcases List.mem_cons.mp mem with rfl | mem
          · exact .inl (List.mem_reverse.mp there)
          · rcases ih mem with there | there
            · exact absurd there List.not_mem_nil
            · exact .inr (List.mem_cons_of_mem d there)
      · rcases ih mem with there | there
        · rcases List.mem_cons.mp there with rfl | there
          · exact .inr (List.mem_cons_self ..)
          · exact .inl there
        · exact .inr (List.mem_cons_of_mem d there)

theorem mem_of_mem_words {w : List Char} (mem : w ∈ words cs) (there : c ∈ w) : c ∈ cs :=
  (mem_of_mem_wordsFrom mem there).resolve_left List.not_mem_nil

theorem solid_of_mem_wordsFrom {word w : List Char} (solid : ∀ c ∈ word, ¬ isBlank c)
    (mem : w ∈ wordsFrom word cs) : w ≠ [] ∧ ∀ c ∈ w, ¬ isBlank c := by
  have done {word : List Char} (begun : ¬ word.isEmpty) (solid : ∀ c ∈ word, ¬ isBlank c) :
      word.reverse ≠ [] ∧ ∀ c ∈ word.reverse, ¬ isBlank c := by
    simp only [List.isEmpty_iff] at begun
    exact ⟨mt List.reverse_eq_nil_iff.mp begun, fun c mem => solid c (List.mem_reverse.mp mem)⟩
  induction cs generalizing word with
  | nil =>
      rw [wordsFrom] at mem
      split at mem
      · exact absurd mem List.not_mem_nil
      · next begun =>
          obtain rfl := List.mem_singleton.mp mem
          exact done begun solid
  | cons d cs ih =>
      have fresh : ∀ c ∈ ([] : List Char), ¬ isBlank c := fun _ mem => absurd mem List.not_mem_nil
      rw [wordsFrom] at mem
      split at mem
      · split at mem
        · exact ih fresh mem
        · next begun =>
            obtain rfl | mem := List.mem_cons.mp mem
            · exact done begun solid
            · exact ih fresh mem
      · next letter => exact ih (List.forall_mem_cons.mpr ⟨letter, solid⟩) mem

/-- Words are not empty and have no blanks. -/
theorem solid_of_mem_words {w : List Char} (mem : w ∈ words cs) :
    w ≠ [] ∧ ∀ c ∈ w, ¬ isBlank c :=
  solid_of_mem_wordsFrom (fun _ mem => absurd mem List.not_mem_nil) mem

/-! ## Words between single spaces -/

theorem hasInfix_iff (piece cs : List Char) : hasInfix piece cs ↔ piece <:+: cs := by
  induction cs with
  | nil => simp [hasInfix]
  | cons c cs ih =>
      rw [hasInfix, Bool.or_eq_true, ih, List.isPrefixOf_iff_prefix, List.infix_cons_iff]

/-- A space before each word and one at the end. -/
def spaced (ws : List (List Char)) : List Char := ws.flatMap (' ' :: ·) ++ [' ']

theorem spaced_cons (w : List Char) (ws : List (List Char)) :
    spaced (w :: ws) = ' ' :: (w ++ spaced ws) := by
  simp [spaced]

/-- What is spaced begins with a space, whatever words there are. -/
theorem exists_spaced (ws : List (List Char)) : ∃ cs, spaced ws = ' ' :: cs := by
  cases ws with
  | nil => exact ⟨[], rfl⟩
  | cons w ws => exact ⟨_, spaced_cons w ws⟩

theorem words_spaced {ws : List (List Char)} (solid : ∀ w ∈ ws, w ≠ [] ∧ ∀ c ∈ w, ¬ isBlank c) :
    words (spaced ws) = ws := by
  induction ws with
  | nil => rfl
  | cons w ws ih =>
      obtain ⟨⟨some, letters⟩, solid⟩ := List.forall_mem_cons.mp solid
      obtain ⟨cs, next⟩ := exists_spaced ws
      have later : words cs = ws := by
        rw [← ih solid, next]
        exact (words_append_blank (c := ' ') rfl [] cs).symm
      have first : words (' ' :: (w ++ ' ' :: cs)) = words (w ++ ' ' :: cs) :=
        words_append_blank (c := ' ') rfl [] _
      rw [spaced_cons, next, first, words_append_blank rfl, words_of_solid some letters, later]
      rfl

theorem spaced_eq {ws : List (List Char)} (some : ws ≠ []) :
    spaced ws = ' ' :: ((ws.intersperse [' ']).flatten ++ [' ']) := by
  induction ws with
  | nil => exact absurd rfl some
  | cons w ws ih =>
      rw [spaced_cons]
      cases ws with
      | nil => simp [spaced]
      | cons v ws =>
          rw [ih (List.cons_ne_nil v ws), List.intersperse_cons_cons]
          simp

/-- A word is found, with a space on each side, where the words stand between single spaces. -/
theorem infix_collapse {w : List Char} (some : w ≠ []) (solid : ∀ c ∈ w, ¬ isBlank c)
    (s : String) :
    ' ' :: (w ++ [' ']) <:+: ' ' :: ((collapse s).toList ++ [' ']) ↔ w ∈ words s.toList := by
  have clean : ∀ w ∈ words s.toList, w ≠ [] ∧ ∀ c ∈ w, ¬ isBlank c := fun _ mem =>
    solid_of_mem_words mem
  rw [collapse, String.toList_ofList]
  generalize words s.toList = ws at clean ⊢
  cases ws with
  | nil =>
      refine iff_of_false (fun within => ?_) List.not_mem_nil
      have long := within.length_le
      have none : w.length = 0 := by simpa using long
      exact some (List.length_eq_zero_iff.mp none)
  | cons v ws =>
      rw [← spaced_eq (List.cons_ne_nil v ws)]
      constructor
      · rintro ⟨before, after, whole⟩
        have same := congrArg words whole
        rw [words_spaced clean, List.append_assoc] at same
        have split : before ++ (' ' :: (w ++ [' ']) ++ after) =
            before ++ ' ' :: (w ++ ' ' :: after) := by simp
        rw [split, words_append_blank rfl, words_append_blank rfl,
          words_of_solid some solid] at same
        rw [← same]
        simp
      · intro mem
        obtain ⟨front, back, split⟩ := List.append_of_mem mem
        obtain ⟨cs, next⟩ := exists_spaced back
        refine ⟨front.flatMap (' ' :: ·), cs, ?_⟩
        have parts : spaced (front ++ w :: back) =
            front.flatMap (' ' :: ·) ++ ' ' :: (w ++ spaced back) := by
          simp [spaced]
        rw [split, parts, next]
        simp

/-! ## Ends -/

theorem mem_dropWhile_of_neg {p : Char → Bool} (there : c ∈ cs) (stop : ¬ p c) :
    c ∈ cs.dropWhile p := by
  rw [← List.takeWhile_append_dropWhile (p := p) (l := cs)] at there
  rcases List.mem_append.mp there with taken | left
  · exact absurd (List.all_eq_true.mp List.all_takeWhile c taken) stop
  · exact left

theorem mem_trim_of_solid (there : c ∈ cs) (solid : ¬ isBlank c) : c ∈ trim cs := by
  rw [trim, trimEnd, List.mem_reverse]
  exact mem_dropWhile_of_neg (List.mem_reverse.mpr (mem_dropWhile_of_neg there solid)) solid

/-- A trimmed text has no blanks at its ends. -/
theorem ends_of_trim (trimmed : trim cs = cs) :
    cs.dropWhile isBlank = cs ∧ cs.reverse.dropWhile isBlank = cs.reverse := by
  have first := List.dropWhile_suffix isBlank (l := cs)
  have last := List.dropWhile_suffix isBlank (l := (cs.dropWhile isBlank).reverse)
  have length := congrArg List.length trimmed
  rw [trim, trimEnd, trimStart, List.length_reverse] at length
  have start : cs.dropWhile isBlank = cs :=
    first.eq_of_length_le (by have := last.length_le; rw [List.length_reverse] at this; omega)
  refine ⟨start, ?_⟩
  rw [start] at last length
  exact last.eq_of_length_le (by rw [List.length_reverse]; omega)

theorem dropWhile_of_head {p : Char → Bool} (first : cs.head? = some c) (stop : ¬ p c) :
    cs.dropWhile p = cs := by
  cases cs with
  | nil => rfl
  | cons d cs =>
      obtain rfl := Option.some.inj first
      exact List.dropWhile_cons_of_neg stop

/-- What goes on up to a character that stops it. -/
theorem takeWhile_append_of_stop {p : Char → Bool} {rest : List Char} (all : ∀ c ∈ cs, p c)
    (stop : ∀ c ∈ rest.head?, ¬ p c) :
    (cs ++ rest).takeWhile p = cs ∧ (cs ++ rest).dropWhile p = rest := by
  rw [List.takeWhile_append_of_pos all, List.dropWhile_append_of_pos all]
  cases rest with
  | nil => exact ⟨List.append_nil cs, rfl⟩
  | cons c rest =>
      rw [List.takeWhile_cons_of_neg (stop c rfl), List.append_nil]
      exact ⟨rfl, List.dropWhile_cons_of_neg (stop c rfl)⟩

theorem trim_of_ends {d : Char} (first : cs.head? = some c) (start : ¬ isBlank c)
    (last : cs.getLast? = some d) (stop : ¬ isBlank d) : trim cs = cs := by
  have back : cs.reverse.head? = some d := List.head?_reverse.trans last
  rw [trim, trimStart, dropWhile_of_head first start, trimEnd, dropWhile_of_head back stop,
    List.reverse_reverse]

/-! ## Lower case, where characters are lowered one by one -/

theorem lowerFrom_of_single {f : Char → Char}
    (single : ∀ c ∈ cs, c ≠ 'Σ' ∧ lowerChar c = [f c]) (before : List Char) :
    lowerFrom before cs = cs.map f := by
  induction cs generalizing before with
  | nil => rfl
  | cons c cs ih =>
      obtain ⟨⟨other, first⟩, single⟩ := List.forall_mem_cons.mp single
      simp [lowerFrom, other, first, ih single]

theorem lowerChar_of_ascii {c : Char} (ascii : c.toNat < 0x80) : lowerChar c = [asciiLower c] := by
  have range : ('A' ≤ c ∧ c ≤ 'Z') ↔ (0x41 ≤ c.toNat ∧ c.toNat ≤ 0x5A) :=
    and_congr UInt32.le_iff_toNat_le UInt32.le_iff_toNat_le
  simp only [lowerChar, asciiLower, ascii, if_true, range, Bool.and_eq_true, decide_eq_true_eq]
  split <;> rfl

theorem lowered_of_ascii (ascii : ∀ c ∈ cs, c.toNat < 0x80) :
    lowered (String.ofList cs) = String.ofList (cs.map asciiLower) := by
  have single : ∀ c ∈ cs, c ≠ 'Σ' ∧ lowerChar c = [asciiLower c] := by
    intro c there
    refine ⟨?_, lowerChar_of_ascii (ascii c there)⟩
    rintro rfl
    exact absurd (ascii _ there) (by decide)
  rw [lowered, String.toList_ofList, lowerFrom_of_single single]

end BrowserScript.Text
