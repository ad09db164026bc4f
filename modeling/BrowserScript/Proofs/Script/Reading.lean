import BrowserScript.Proofs.Text.Words
import BrowserScript.Script.Reading
import BrowserScript.Text.Search

/-!
The laws of readings. Which readings a text has follows from what the parts of a phrase take; which
of them comes first follows from the order in which the parts are tried. Words and runs of blanks
take the same characters whatever follows them; a stretch of any text does not, so phrases with such
a stretch are treated where they are used.
-/

namespace BrowserScript.Script.Reading

variable {α β γ : Type} {a : α} {b : β} {cs rest : List Char}

/-- What holds of the letters of a word is decided at these letters, not at every character. -/
instance (priority := high) decidableLetters (p : Char → Prop) [DecidablePred p] (w : List Char) :
    Decidable (∀ c ∈ w, p c) :=
  List.decidableBAll p w

instance : LawfulMonad Reading := LawfulMonad.mk' Reading
  (fun r => funext fun cs => List.flatMap_singleton' (r cs))
  (fun _ f => funext fun cs => List.append_nil (f _ cs))
  (fun r _ _ => funext fun cs => List.flatMap_assoc (l := r cs))

/-! ## Which readings there are -/

theorem mem_pure {a' : α} : (a', rest) ∈ (pure a : Reading α) cs ↔ a' = a ∧ rest = cs := by
  simp [pure]

theorem mem_bind {r : Reading α} {f : α → Reading β} :
    (b, rest) ∈ (r >>= f) cs ↔ ∃ a mid, (a, mid) ∈ r cs ∧ (b, rest) ∈ f a mid := by
  simp [bind]

theorem mem_map {r : Reading α} {f : α → β} :
    (b, rest) ∈ (f <$> r) cs ↔ ∃ a, b = f a ∧ (a, rest) ∈ r cs := by
  rw [← bind_pure_comp, mem_bind]
  simp only [mem_pure]
  constructor
  · rintro ⟨a, mid, read, rfl, rfl⟩
    exact ⟨a, rfl, read⟩
  · rintro ⟨a, rfl, read⟩
    exact ⟨a, rest, read, rfl, rfl⟩

theorem mem_orElse {r s : Reading α} :
    (a, rest) ∈ orElse r s cs ↔ (a, rest) ∈ r cs ∨ (a, rest) ∈ s cs := List.mem_append

theorem mem_optional {r : Reading α} {o : Option α} :
    (o, rest) ∈ optional r cs ↔ (∃ a, o = some a ∧ (a, rest) ∈ r cs) ∨ o = none ∧ rest = cs := by
  rw [optional, mem_orElse, mem_map, mem_pure]

theorem mem_char {p : Char → Bool} {c : Char} :
    (c, rest) ∈ char p cs ↔ cs = c :: rest ∧ p c := by
  cases cs with
  | nil => simp [char]
  | cons d ds =>
      cases h : p d with
      | false =>
          simp only [char, h, Bool.false_eq_true, if_false, List.not_mem_nil, false_iff, not_and,
            List.cons.injEq, and_imp]
          rintro rfl rfl
          exact Bool.eq_false_iff.mp h
      | true =>
          simp only [char, h, if_true, List.mem_singleton, Prod.mk.injEq, List.cons.injEq]
          constructor
          · rintro ⟨rfl, rfl⟩
            exact ⟨⟨rfl, rfl⟩, h⟩
          · rintro ⟨⟨rfl, rfl⟩, -⟩
            exact ⟨rfl, rfl⟩

theorem mem_blanks {bs : List Char} :
    (bs, rest) ∈ blanks cs ↔ cs = bs ++ rest ∧ ∀ c ∈ bs, Text.isBlank c := by
  induction cs generalizing bs rest with
  | nil =>
      simp only [blanks, List.mem_singleton, Prod.mk.injEq, List.nil_eq, List.append_eq_nil_iff]
      constructor
      · rintro ⟨rfl, rfl⟩
        simp
      · rintro ⟨h, -⟩
        exact h
  | cons c cs ih =>
      cases bs with
      | nil =>
          cases h : Text.isBlank c <;> simp [blanks, h, eq_comm (a := c :: cs)]
      | cons d bs =>
          cases h : Text.isBlank c with
          | false =>
              simp only [blanks, h, Bool.false_eq_true, if_false, List.mem_singleton,
                Prod.mk.injEq, reduceCtorEq, false_and, false_iff, not_and, List.cons_append,
                List.cons.injEq, and_imp]
              rintro rfl - blank
              exact Bool.eq_false_iff.mp h (blank c (List.mem_cons_self ..))
          | true =>
              simp only [blanks, h, if_true, List.mem_append, List.mem_map, List.mem_singleton,
                Prod.mk.injEq, reduceCtorEq, false_and, or_false, Prod.exists, ih,
                List.cons_append, List.cons.injEq, List.forall_mem_cons]
              constructor
              · rintro ⟨bs, rest, ⟨rfl, blank⟩, ⟨rfl, rfl⟩, rfl⟩
                exact ⟨⟨rfl, rfl⟩, h, blank⟩
              · rintro ⟨⟨rfl, rfl⟩, -, blank⟩
                exact ⟨bs, rest, ⟨rfl, blank⟩, ⟨rfl, rfl⟩, rfl⟩

/-- A run of blanks that is not empty. -/
structure Gap (bs : List Char) : Prop where
  ne_nil : bs ≠ []
  blank : ∀ c ∈ bs, Text.isBlank c

theorem mem_someBlanks {bs : List Char} :
    (bs, rest) ∈ someBlanks cs ↔ cs = bs ++ rest ∧ Gap bs := by
  simp only [someBlanks, mem_bind, mem_char, mem_blanks, mem_pure]
  constructor
  · rintro ⟨c, _, ⟨rfl, first⟩, bs, _, ⟨rfl, blank⟩, rfl, rfl⟩
    exact ⟨rfl, List.cons_ne_nil c bs, List.forall_mem_cons.mpr ⟨first, blank⟩⟩
  · rintro ⟨rfl, ne, blank⟩
    cases bs with
    | nil => exact absurd rfl ne
    | cons c bs =>
        obtain ⟨first, blank⟩ := List.forall_mem_cons.mp blank
        exact ⟨c, bs ++ rest, ⟨rfl, first⟩, bs, rest, ⟨rfl, blank⟩, rfl, rfl⟩

/-- What cannot be read. -/
def nothing : Reading α := fun _ => []

theorem orElse_nothing (r : Reading α) : orElse r nothing = r := by
  funext cs
  exact List.append_nil (r cs)

/-- One of several phrases, the first preferred. -/
def choice {σ : Type} (phrase : σ → Reading α) (options : List σ) : Reading α :=
  options.foldr (fun s r => orElse (phrase s) r) nothing

theorem mem_choice {σ : Type} {phrase : σ → Reading α} {options : List σ} :
    (a, rest) ∈ choice phrase options cs ↔ ∃ s ∈ options, (a, rest) ∈ phrase s cs := by
  induction options with
  | nil => simp [show choice phrase [] = nothing from rfl, nothing]
  | cons s options ih =>
      change (a, rest) ∈ orElse (phrase s) (choice phrase options) cs ↔ _
      simp only [mem_orElse, ih, List.mem_cons, exists_eq_or_imp]

/-! ## Words -/

/-- The letter that a character is compared by. -/
def plainLetter (c : Char) : Char :=
  if c = 'ſ' then 's' else if c = '\u212a' then 'k' else Text.asciiLower c

theorem plainLetter_of_ascii {c : Char} (ascii : c.toNat < 0x80) :
    plainLetter c = Text.asciiLower c := by
  have long : c ≠ 'ſ' := by
    rintro rfl
    exact absurd ascii (by decide)
  have kelvin : c ≠ '\u212a' := by
    rintro rfl
    exact absurd ascii (by decide)
  rw [plainLetter, if_neg long, if_neg kelvin]

/-- A word in small letters. -/
def Plain (w : String) : Prop := ∀ c ∈ w.toList, 'a' ≤ c ∧ c ≤ 'z'

instance (w : String) : Decidable (Plain w) := inferInstanceAs (Decidable (∀ c ∈ _, _))

theorem sameLetter_iff {w c : Char} (plain : 'a' ≤ w ∧ w ≤ 'z') :
    sameLetter w c ↔ plainLetter c = w := by
  have long : w ≠ 'ſ' := by
    rintro rfl
    exact absurd plain (by decide)
  have kelvin : w ≠ '\u212a' := by
    rintro rfl
    exact absurd plain (by decide)
  have longLower : Text.asciiLower 'ſ' = 'ſ' := by decide
  have kelvinLower : Text.asciiLower '\u212a' = '\u212a' := by decide
  by_cases hs : c = 'ſ'
  · subst hs
    simp [sameLetter, plainLetter, longLower, long.symm, eq_comm (a := w)]
  · by_cases hk : c = '\u212a'
    · subst hk
      simp [sameLetter, plainLetter, kelvinLower, kelvin.symm, eq_comm (a := w)]
    · simp [sameLetter, plainLetter, hs, hk]

theorem mem_wordFrom {ws : List Char} (plain : ∀ c ∈ ws, 'a' ≤ c ∧ c ≤ 'z') {a : List Char} :
    (a, rest) ∈ wordFrom ws cs ↔ cs = a ++ rest ∧ a.map plainLetter = ws := by
  induction ws generalizing cs a rest with
  | nil =>
      simp only [wordFrom, mem_pure, List.map_eq_nil_iff]
      constructor
      · rintro ⟨rfl, rfl⟩
        exact ⟨rfl, rfl⟩
      · rintro ⟨rfl, rfl⟩
        exact ⟨rfl, rfl⟩
  | cons w ws ih =>
      obtain ⟨first, plain⟩ := List.forall_mem_cons.mp plain
      simp only [wordFrom, mem_bind, mem_char, mem_pure, ih plain]
      constructor
      · rintro ⟨c, _, ⟨rfl, same⟩, a, _, ⟨rfl, spelled⟩, rfl, rfl⟩
        exact ⟨rfl, by rw [List.map_cons, (sameLetter_iff first).mp same, spelled]⟩
      · rintro ⟨rfl, spelled⟩
        cases a with
        | nil => simp at spelled
        | cons c a =>
            obtain ⟨same, spelled⟩ := List.cons.inj spelled
            exact ⟨c, a ++ rest, ⟨rfl, (sameLetter_iff first).mpr same⟩, a, rest, ⟨rfl, spelled⟩,
              rfl, rfl⟩

theorem mem_word {w : String} (plain : Plain w) {a : List Char} :
    (a, rest) ∈ word w cs ↔ cs = a ++ rest ∧ a.map plainLetter = w.toList :=
  mem_wordFrom plain

theorem plainLetter_of_plain {c : Char} (plain : 'a' ≤ c ∧ c ≤ 'z') : plainLetter c = c := by
  refine (sameLetter_iff plain).mp ?_
  have low : 97 ≤ c.toNat := UInt32.le_iff_toNat_le.mp plain.1
  have small : Text.asciiLower c = c := by
    refine if_neg fun upper => ?_
    have high : c.toNat ≤ 90 := UInt32.le_iff_toNat_le.mp upper.2
    omega
  simp [sameLetter, small]

/-- A word is read as it is. -/
theorem word_self {w : String} (plain : Plain w) (rest : List Char) :
    (w.toList, rest) ∈ word w (w.toList ++ rest) := by
  refine (mem_word plain).mpr ⟨rfl, ?_⟩
  exact (List.map_congr_left fun c there => plainLetter_of_plain (plain c there)).trans
    (List.map_id w.toList)

/-- Two words that differ before one of them ends are not read at the same place. -/
theorem word_clash {w w' : String} {a a' rest rest' : List Char} (plain : Plain w)
    (plain' : Plain w') (differ : ¬ (w.toList <+: w'.toList ∨ w'.toList <+: w.toList))
    (read : (a, rest) ∈ word w cs) : (a', rest') ∉ word w' cs := by
  intro read'
  obtain ⟨rfl, spelled⟩ := (mem_word plain).mp read
  obtain ⟨same, spelled'⟩ := (mem_word plain').mp read'
  refine differ ?_
  rw [← spelled, ← spelled']
  have whole : a <+: a ++ rest := List.prefix_append a rest
  have whole' : a' <+: a ++ rest := same ▸ List.prefix_append a' rest'
  rcases List.prefix_or_prefix_of_prefix whole whole' with first | first
  · exact .inl (first.map plainLetter)
  · exact .inr (first.map plainLetter)

theorem toNat_of_asciiLower {c : Char} (plain : 'a' ≤ Text.asciiLower c ∧ Text.asciiLower c ≤ 'z') :
    65 ≤ c.toNat ∧ c.toNat ≤ 122 := by
  unfold Text.asciiLower at plain
  split at plain
  · next upper =>
      have low : 65 ≤ c.toNat := UInt32.le_iff_toNat_le.mp upper.1
      have high : c.toNat ≤ 90 := UInt32.le_iff_toNat_le.mp upper.2
      omega
  · have low : 97 ≤ c.toNat := UInt32.le_iff_toNat_le.mp plain.1
    have high : c.toNat ≤ 122 := UInt32.le_iff_toNat_le.mp plain.2
    omega

/-- Words none of which begins another are told apart. -/
theorem word_unique {σ : Type} (spell : σ → String) {options : List σ}
    (plain : ∀ s ∈ options, Plain (spell s))
    (apart : ∀ s ∈ options, ∀ s' ∈ options, (spell s).toList <+: (spell s').toList → s = s')
    {s s' : σ} (mem : s ∈ options) (mem' : s' ∈ options) {a a' rest rest' : List Char}
    (read : (a, rest) ∈ word (spell s) cs) (read' : (a', rest') ∈ word (spell s') cs) :
    s = s' := by
  refine Classical.byContradiction fun differ => ?_
  refine word_clash (plain s mem) (plain s' mem') ?_ read read'
  rintro (first | first)
  · exact differ (apart s mem s' mem' first)
  · exact differ (apart s' mem' s mem first).symm

theorem not_blank_of_plainLetter {w c : Char} (plain : 'a' ≤ w ∧ w ≤ 'z')
    (same : plainLetter c = w) : ¬ Text.isBlank c := by
  subst same
  intro blank
  have far := Text.toNat_of_isBlank blank
  unfold plainLetter at plain
  split at plain
  · next long => exact absurd (long ▸ blank) (by decide)
  · split at plain
    · next kelvin => exact absurd (kelvin ▸ blank) (by decide)
    · have near := toNat_of_asciiLower plain
      omega

/-! ## What a reading takes -/

/-- What is read does not depend on what follows it. -/
def Regular (r : Reading α) : Prop :=
  ∀ a cs rest, (a, rest) ∈ r cs ↔ ∃ p, cs = p ++ rest ∧ (a, []) ∈ r p

/-- There is at most one reading. -/
def Sure (r : Reading α) : Prop := ∀ cs, ∀ x ∈ r cs, ∀ y ∈ r cs, x = y

/-- Nothing is read where a blank stands. -/
def Solid (r : Reading α) : Prop := ∀ c cs, Text.isBlank c → r (c :: cs) = []

theorem Regular.extend {r : Reading α} (regular : Regular r) (read : (a, rest) ∈ r cs)
    (more : List Char) : (a, rest ++ more) ∈ r (cs ++ more) := by
  obtain ⟨p, rfl, whole⟩ := (regular a cs rest).mp read
  exact (regular ..).mpr ⟨p, List.append_assoc .., whole⟩

theorem Regular.pure (a : α) : Regular (pure a : Reading α) := by
  intro a' cs rest
  simp only [mem_pure]
  constructor
  · rintro ⟨rfl, rfl⟩
    exact ⟨[], rfl, rfl, rfl⟩
  · rintro ⟨p, rfl, rfl, rfl⟩
    exact ⟨rfl, rfl⟩

theorem Regular.bind {r : Reading α} {f : α → Reading β} (first : Regular r)
    (second : ∀ a, Regular (f a)) : Regular (r >>= f) := by
  intro b cs rest
  simp only [mem_bind]
  constructor
  · rintro ⟨a, mid, read, next⟩
    obtain ⟨p, rfl, whole⟩ := (first ..).mp read
    obtain ⟨q, rfl, whole'⟩ := (second a ..).mp next
    exact ⟨p ++ q, (List.append_assoc ..).symm, a, q, (first ..).mpr ⟨p, rfl, whole⟩, whole'⟩
  · rintro ⟨p, rfl, a, mid, read, next⟩
    exact ⟨a, mid ++ rest, first.extend read rest, (second a).extend next rest⟩

theorem Regular.map {r : Reading α} (regular : Regular r) (f : α → β) : Regular (f <$> r) := by
  rw [← bind_pure_comp]
  exact regular.bind fun a => .pure (f a)

theorem Regular.orElse {r s : Reading α} (first : Regular r) (second : Regular s) :
    Regular (orElse r s) := by
  intro a cs rest
  simp only [mem_orElse, first a cs rest, second a cs rest, and_or_left, exists_or]

theorem Regular.optional {r : Reading α} (regular : Regular r) : Regular (optional r) :=
  (regular.map some).orElse (.pure none)

theorem Regular.choice {σ : Type} {phrase : σ → Reading α} (regular : ∀ s, Regular (phrase s))
    (options : List σ) : Regular (choice phrase options) := by
  intro a cs rest
  simp only [mem_choice, regular _ a cs rest]
  constructor
  · rintro ⟨s, mem, p, rfl, whole⟩
    exact ⟨p, rfl, s, mem, whole⟩
  · rintro ⟨p, rfl, s, mem, whole⟩
    exact ⟨s, mem, p, rfl, whole⟩

theorem regular_char (p : Char → Bool) : Regular (char p) := by
  intro c cs rest
  simp only [mem_char]
  constructor
  · rintro ⟨rfl, ok⟩
    exact ⟨[c], rfl, rfl, ok⟩
  · rintro ⟨_, rfl, rfl, ok⟩
    exact ⟨rfl, ok⟩

theorem regular_blanks : Regular blanks := by
  intro bs cs rest
  simp only [mem_blanks]
  constructor
  · rintro ⟨rfl, blank⟩
    exact ⟨bs, rfl, (List.append_nil bs).symm, blank⟩
  · rintro ⟨_, rfl, rfl, blank⟩
    exact ⟨by rw [List.append_nil], blank⟩

theorem regular_someBlanks : Regular someBlanks :=
  (regular_char _).bind fun _ => regular_blanks.bind fun _ => .pure _

theorem regular_wordFrom (ws : List Char) : Regular (wordFrom ws) := by
  induction ws with
  | nil => exact .pure []
  | cons w ws ih => exact (regular_char _).bind fun _ => ih.bind fun _ => .pure _

theorem regular_word (w : String) : Regular (word w) := regular_wordFrom w.toList

/-! ## How many readings there are -/

theorem Sure.pure (a : α) : Sure (pure a : Reading α) := by
  intro cs x hx y hy
  rw [List.mem_singleton.mp hx, List.mem_singleton.mp hy]

theorem Sure.bind {r : Reading α} {f : α → Reading β} (first : Sure r)
    (second : ∀ a, Sure (f a)) : Sure (r >>= f) := by
  rintro cs ⟨b, rest⟩ hx ⟨b', rest'⟩ hy
  obtain ⟨a, mid, read, next⟩ := mem_bind.mp hx
  obtain ⟨a', mid', read', next'⟩ := mem_bind.mp hy
  cases first cs _ read _ read'
  exact second a mid _ next _ next'

theorem Sure.orElse {r s : Reading α} (first : Sure r) (second : Sure s)
    (apart : ∀ cs, ∀ x ∈ r cs, ∀ y ∈ s cs, False) : Sure (orElse r s) := by
  intro cs x hx y hy
  rcases List.mem_append.mp hx with hx | hx <;> rcases List.mem_append.mp hy with hy | hy
  · exact first cs x hx y hy
  · exact (apart cs x hx y hy).elim
  · exact (apart cs y hy x hx).elim
  · exact second cs x hx y hy

theorem Sure.choice {σ : Type} {phrase : σ → Reading α} {options : List σ}
    (sure : ∀ s, Sure (phrase s))
    (apart : ∀ cs, ∀ s ∈ options, ∀ s' ∈ options, ∀ x ∈ phrase s cs, ∀ y ∈ phrase s' cs, s = s') :
    Sure (choice phrase options) := by
  rintro cs ⟨a, rest⟩ hx ⟨a', rest'⟩ hy
  obtain ⟨s, mem, hx⟩ := mem_choice.mp hx
  obtain ⟨s', mem', hy⟩ := mem_choice.mp hy
  cases apart cs s mem s' mem' _ hx _ hy
  exact sure s cs _ hx _ hy

theorem sure_char (p : Char → Bool) : Sure (char p) := by
  rintro cs ⟨c, rest⟩ hx ⟨c', rest'⟩ hy
  obtain ⟨rfl, -⟩ := mem_char.mp hx
  obtain ⟨same, -⟩ := mem_char.mp hy
  cases same
  rfl

theorem sure_wordFrom (ws : List Char) : Sure (wordFrom ws) := by
  induction ws with
  | nil => exact .pure []
  | cons w ws ih => exact (sure_char _).bind fun _ => ih.bind fun _ => .pure _

theorem sure_word (w : String) : Sure (word w) := sure_wordFrom w.toList

theorem Solid.bind {r : Reading α} (solid : Solid r) (f : α → Reading β) : Solid (r >>= f) := by
  intro c cs blank
  change (r (c :: cs)).flatMap _ = []
  rw [solid c cs blank]
  rfl

/-- Every reading starts with one of these words. -/
def Begins (ws : List String) (r : Reading α) : Prop :=
  ∀ cs, ∀ x ∈ r cs, ∃ w ∈ ws, ∃ y, y ∈ word w cs

/-- Words in small letters that are not empty. -/
def PlainWords (ws : List String) : Prop := ∀ w ∈ ws, Plain w ∧ w.toList ≠ []

instance (ws : List String) : Decidable (PlainWords ws) := inferInstanceAs (Decidable (∀ w ∈ _, _))

/-- No word of the one list begins a word of the other, nor the other way round. -/
def Clash (ws ws' : List String) : Prop :=
  ∀ w ∈ ws, ∀ w' ∈ ws', ¬ (w.toList <+: w'.toList ∨ w'.toList <+: w.toList)

instance (ws ws' : List String) : Decidable (Clash ws ws') :=
  inferInstanceAs (Decidable (∀ w ∈ _, ∀ w' ∈ _, _))

theorem begins_word (w : String) : Begins [w] (word w) :=
  fun _ x read => ⟨w, List.mem_singleton_self w, x, read⟩

theorem Begins.bind {ws : List String} {r : Reading α} (begins : Begins ws r)
    (f : α → Reading β) : Begins ws (r >>= f) := by
  rintro cs ⟨b, rest⟩ read
  obtain ⟨a, mid, first, -⟩ := mem_bind.mp read
  exact begins cs _ first

theorem Begins.orElse {ws ws' : List String} {r s : Reading α} (first : Begins ws r)
    (second : Begins ws' s) : Begins (ws ++ ws') (orElse r s) := by
  intro cs x read
  rcases List.mem_append.mp read with read | read
  · obtain ⟨w, mem, found⟩ := first cs x read
    exact ⟨w, List.mem_append_left ws' mem, found⟩
  · obtain ⟨w, mem, found⟩ := second cs x read
    exact ⟨w, List.mem_append_right ws mem, found⟩

theorem Begins.choice {σ : Type} (spell : σ → String) {phrase : σ → Reading α}
    (begins : ∀ s, Begins [spell s] (phrase s)) (options : List σ) :
    Begins (options.map spell) (choice phrase options) := by
  rintro cs ⟨a, rest⟩ read
  obtain ⟨s, mem, read⟩ := mem_choice.mp read
  obtain ⟨w, first, found⟩ := begins s cs _ read
  exact ⟨spell s, List.mem_map_of_mem mem, List.mem_singleton.mp first ▸ found⟩

theorem Begins.solid {ws : List String} {r : Reading α} (begins : Begins ws r)
    (plain : PlainWords ws) : Solid r := by
  intro c cs blank
  rw [List.eq_nil_iff_forall_not_mem]
  intro x read
  obtain ⟨w, mem, ⟨a, rest⟩, found⟩ := begins _ x read
  obtain ⟨same, spelled⟩ := (mem_word (plain w mem).1).mp found
  cases a with
  | nil => exact (plain w mem).2 spelled.symm
  | cons d a =>
      obtain ⟨rfl, -⟩ := List.cons.inj same
      have letter : plainLetter c ∈ w.toList := spelled ▸ List.mem_cons_self ..
      exact not_blank_of_plainLetter ((plain w mem).1 _ letter) rfl blank

theorem Begins.apart {ws ws' : List String} {r : Reading α} {s : Reading β}
    (first : Begins ws r) (second : Begins ws' s) (plain : PlainWords ws)
    (plain' : PlainWords ws') (clash : Clash ws ws') {x : α × List Char} {y : β × List Char}
    (read : x ∈ r cs) (read' : y ∈ s cs) : False := by
  obtain ⟨w, mem, _, found⟩ := first cs x read
  obtain ⟨w', mem', _, found'⟩ := second cs y read'
  exact word_clash (plain w mem).1 (plain' w' mem').1 (clash w mem w' mem') found found'

/-- The text does not begin with a blank. -/
def Unblanked (cs : List Char) : Prop := cs.dropWhile Text.isBlank = cs

theorem unblanked_cons {c : Char} {cs : List Char} :
    Unblanked (c :: cs) ↔ ¬ Text.isBlank c := by
  constructor
  · intro begins blank
    have shorter := Text.length_dropWhile_le Text.isBlank cs
    rw [Unblanked, List.dropWhile_cons_of_pos blank] at begins
    rw [begins, List.length_cons] at shorter
    omega
  · exact List.dropWhile_cons_of_neg

theorem Solid.unblanked {r : Reading α} (solid : Solid r) (read : (a, rest) ∈ r cs) :
    Unblanked cs := by
  cases cs with
  | nil => rfl
  | cons c cs =>
      refine unblanked_cons.mpr fun blank => ?_
      rw [solid c cs blank] at read
      exact List.not_mem_nil read

theorem Gap.dropWhile_append {bs : List Char} (gap : Gap bs) (cs : List Char) :
    (bs ++ cs).dropWhile Text.isBlank = cs.dropWhile Text.isBlank :=
  List.dropWhile_append_of_pos gap.blank

theorem gap_unique {bs bs' u u' : List Char} (gap : Gap bs) (gap' : Gap bs')
    (same : bs ++ u = bs' ++ u') (begins : Unblanked u) (begins' : Unblanked u') :
    bs = bs' ∧ u = u' := by
  have rests : u = u' := by
    calc
      u = (bs ++ u).dropWhile Text.isBlank := (gap.dropWhile_append u).trans begins |>.symm
      _ = (bs' ++ u').dropWhile Text.isBlank := by rw [same]
      _ = u' := (gap'.dropWhile_append u').trans begins'
  subst rests
  exact ⟨List.append_cancel_right same, rfl⟩

theorem Sure.spaced {r : List Char → Reading α} (sure : ∀ bs, Sure (r bs))
    (solid : ∀ bs, Solid (r bs)) : Sure (someBlanks >>= r) := by
  rintro cs ⟨b, rest⟩ hx ⟨b', rest'⟩ hy
  obtain ⟨bs, u, blanks, read⟩ := mem_bind.mp hx
  obtain ⟨bs', u', blanks', read'⟩ := mem_bind.mp hy
  obtain ⟨rfl, gap⟩ := mem_someBlanks.mp blanks
  obtain ⟨same, gap'⟩ := mem_someBlanks.mp blanks'
  obtain ⟨rfl, rfl⟩ := gap_unique gap gap' same ((solid bs).unblanked read)
    ((solid bs').unblanked read')
  exact sure bs u _ read _ read'

/-! ## The reading that comes first -/

theorem head?_bind_of_head {r : Reading α} {f : α → Reading β} {mid : List Char}
    {x : β × List Char} (first : (r cs).head? = some (a, mid))
    (next : (f a mid).head? = some x) : ((r >>= f) cs).head? = some x := by
  cases found : r cs with
  | nil => simp [found] at first
  | cons y ys =>
      rw [found] at first
      obtain rfl := Option.some.inj first
      simp [bind, found, next]

/-- Where there is at most one reading, the first reading of what follows decides. -/
theorem head?_bind_of_sure {r : Reading α} {f : α → Reading β} (sure : Sure r) {mid : List Char}
    (read : (a, mid) ∈ r cs) : ((r >>= f) cs).head? = (f a mid).head? := by
  have only : ∀ l : List (α × List Char), l ≠ [] → (∀ x ∈ l, x = (a, mid)) →
      (l.flatMap fun p => f p.1 p.2).head? = (f a mid).head? := by
    intro l ne same
    induction l with
    | nil => exact absurd rfl ne
    | cons x l ih =>
        obtain ⟨rfl, others⟩ := List.forall_mem_cons.mp same
        cases l with
        | nil => exact congrArg List.head? (List.append_nil _)
        | cons y l =>
            rw [List.flatMap_cons, List.head?_append, ih (List.cons_ne_nil y l) others]
            cases (f a mid).head? <;> rfl
  exact only (r cs) (List.ne_nil_of_mem read) fun x hx => sure cs x hx _ read

theorem head?_of_sure {r : Reading α} (sure : Sure r) (read : (a, rest) ∈ r cs) :
    (r cs).head? = some (a, rest) := by
  cases found : r cs with
  | nil => simp [found] at read
  | cons x xs =>
      have first : x ∈ r cs := found ▸ List.mem_cons_self ..
      rw [List.head?_cons, sure cs x first _ read]

theorem head?_orElse_of_none {r s : Reading α} (none : r cs = []) :
    (orElse r s cs).head? = (s cs).head? := by
  rw [orElse, none, List.nil_append]

theorem head?_orElse_of_head {r s : Reading α} {x : α × List Char} (first : (r cs).head? = some x) :
    (orElse r s cs).head? = some x := by
  rw [orElse, List.head?_append, first]
  rfl

/-- Blanks are taken up as far as they go. -/
theorem head?_blanks {bs : List Char} (blank : ∀ c ∈ bs, Text.isBlank c) (begins : Unblanked cs) :
    (blanks (bs ++ cs)).head? = some (bs, cs) := by
  induction bs with
  | nil =>
      cases cs with
      | nil => rfl
      | cons c cs =>
          have solid := Bool.eq_false_iff.mpr (unblanked_cons.mp begins)
          simp [blanks, solid]
  | cons b bs ih =>
      obtain ⟨first, blank⟩ := List.forall_mem_cons.mp blank
      simp [blanks, first, ih blank, List.head?_append, List.head?_map]

theorem head?_someBlanks {bs : List Char} (gap : Gap bs) (begins : Unblanked cs) :
    (someBlanks (bs ++ cs)).head? = some (bs, cs) := by
  obtain ⟨ne, blank⟩ := gap
  cases bs with
  | nil => exact absurd rfl ne
  | cons b bs =>
      obtain ⟨first, blank⟩ := List.forall_mem_cons.mp blank
      have letter : (char Text.isBlank (b :: (bs ++ cs))).head? = some (b, bs ++ cs) := by
        simp [char, first]
      exact head?_bind_of_head letter (head?_bind_of_head (head?_blanks blank begins) rfl)

theorem mem_stretchesFrom {start : List Char} {n : Nat} {s : Span} :
    (s, rest) ∈ stretchesFrom start n cs ↔ ∃ t, cs = t ++ rest ∧ s = ⟨start, n + t.length⟩ := by
  induction cs generalizing n with
  | nil =>
      simp only [stretchesFrom, List.mem_singleton, Prod.mk.injEq, List.nil_eq,
        List.append_eq_nil_iff]
      constructor
      · rintro ⟨rfl, rfl⟩
        exact ⟨[], ⟨rfl, rfl⟩, rfl⟩
      · rintro ⟨_, ⟨rfl, rfl⟩, rfl⟩
        exact ⟨rfl, rfl⟩
  | cons c cs ih =>
      simp only [stretchesFrom, List.mem_cons, Prod.mk.injEq, ih]
      constructor
      · rintro (⟨rfl, rfl⟩ | ⟨t, rfl, rfl⟩)
        · exact ⟨[], rfl, rfl⟩
        · exact ⟨c :: t, rfl, by rw [List.length_cons, Nat.add_right_comm, Nat.add_assoc]⟩
      · rintro ⟨t, same, rfl⟩
        cases t with
        | nil => exact .inl ⟨rfl, same.symm⟩
        | cons d t =>
            obtain ⟨rfl, rfl⟩ := List.cons.inj same
            exact .inr ⟨t, rfl, by rw [List.length_cons, Nat.add_right_comm, Nat.add_assoc]⟩

theorem mem_fewest {s : Span} :
    (s, rest) ∈ fewest cs ↔ ∃ t, t ≠ [] ∧ cs = t ++ rest ∧ s = ⟨cs, t.length⟩ := by
  cases cs with
  | nil =>
      simp only [fewest, List.not_mem_nil, List.nil_eq, List.append_eq_nil_iff, false_iff]
      rintro ⟨t, ne, ⟨rfl, -⟩, -⟩
      exact ne rfl
  | cons c cs =>
      simp only [fewest, mem_stretchesFrom]
      constructor
      · rintro ⟨t, rfl, rfl⟩
        exact ⟨c :: t, List.cons_ne_nil c t, rfl, by rw [List.length_cons, Nat.add_comm]⟩
      · rintro ⟨t, ne, same, rfl⟩
        cases t with
        | nil => exact absurd rfl ne
        | cons d t =>
            obtain ⟨rfl, rfl⟩ := List.cons.inj same
            exact ⟨t, rfl, by rw [List.length_cons, Nat.add_comm]⟩

theorem head?_stretchesFrom {k : Span → Reading β} {start l u : List Char} {n : Nat}
    {x : β × List Char} (here : (k ⟨start, n + l.length⟩ u).head? = some x)
    (before : ∀ d e, e ≠ [] → l = d ++ e → k ⟨start, n + d.length⟩ (e ++ u) = []) :
    ((stretchesFrom start n (l ++ u)).flatMap fun p => k p.1 p.2).head? = some x := by
  induction l generalizing n with
  | nil =>
      have first : ∃ others, stretchesFrom start n u = (⟨start, n⟩, u) :: others := by
        cases u with
        | nil => exact ⟨[], rfl⟩
        | cons c u => exact ⟨_, rfl⟩
      obtain ⟨others, eq⟩ := first
      rw [List.nil_append, eq, List.flatMap_cons, List.head?_append]
      exact Option.or_of_isSome (here ▸ rfl) |>.trans here
  | cons c l ih =>
      have none : k ⟨start, n⟩ (c :: (l ++ u)) = [] :=
        before [] (c :: l) (List.cons_ne_nil c l) rfl
      rw [List.cons_append, stretchesFrom, List.flatMap_cons, none, List.nil_append]
      refine ih ?_ fun d e ne same => ?_
      · rw [← here, List.length_cons, Nat.add_right_comm, Nat.add_assoc]
      · have := before (c :: d) e ne (by rw [same, List.cons_append])
        rwa [List.length_cons, ← Nat.add_assoc, Nat.add_right_comm] at this

/-- A stretch ends at the first place from which the rest can be read. -/
theorem head?_fewest {k : Span → Reading β} {t u : List Char} {x : β × List Char} (ne : t ≠ [])
    (here : (k ⟨t ++ u, t.length⟩ u).head? = some x)
    (before : ∀ d e, d ≠ [] → e ≠ [] → t = d ++ e → k ⟨t ++ u, d.length⟩ (e ++ u) = []) :
    ((fewest >>= k) (t ++ u)).head? = some x := by
  cases t with
  | nil => exact absurd rfl ne
  | cons c t =>
      refine head?_stretchesFrom (l := t) ?_ fun d e ne same => ?_
      · rwa [Nat.add_comm]
      · have := before (c :: d) e (List.cons_ne_nil c d) ne (by rw [same, List.cons_append])
        rwa [List.length_cons, Nat.add_comm] at this

/-! ## Where a phrase is found -/

theorem find?_of_head {r : Reading α} (first : (r cs).head? = some (a, rest)) :
    find? r cs = some a := by
  cases cs with
  | nil => rw [find?, first]; rfl
  | cons c cs => rw [find?, first]

theorem find?_eq_none {r : Reading α} (nothing : ∀ s, s <:+ cs → r s = []) :
    find? r cs = none := by
  induction cs with
  | nil => rw [find?, nothing [] (List.suffix_refl _)]; rfl
  | cons c cs ih =>
      rw [find?, nothing (c :: cs) (List.suffix_refl _)]
      exact ih fun s tail => nothing s (tail.trans (List.suffix_cons c cs))

theorem mem_of_find? {r : Reading α} (found : find? r cs = some a) :
    ∃ s rest, (a, rest) ∈ r s := by
  induction cs with
  | nil =>
      obtain ⟨⟨_, rest⟩, first, rfl⟩ := Option.map_eq_some_iff.mp found
      exact ⟨[], rest, List.mem_of_head? first⟩
  | cons c cs ih =>
      rw [find?] at found
      split at found
      · next first =>
          obtain rfl := Option.some.inj found
          exact ⟨c :: cs, _, List.mem_of_head? first⟩
      · exact ih found

end BrowserScript.Script.Reading
