import BrowserScript.Proofs.Script.Heading

/-!
Where a statement is found. In a line in which no statement starts but at its head, a family that
cannot be read there is found nowhere, and the subject tells which of the families it is that is
found. A text that does not hold `verify` is one in which no statement starts.
-/

namespace BrowserScript.Script.VerifyStatement

open Reading

variable {α : Type} {f g : Family} {c : Char} {cs rest xs ys : List Char} {v : VerifyStatement}

/-! ## Texts without the word -/

/-- The text does not hold `verify` in any letter case. -/
def Silent (cs : List Char) : Prop := ¬ "verify".toList <:+: cs.map Text.asciiLower

instance (cs : List Char) : Decidable (Silent cs) := inferInstanceAs (Decidable (¬ _))

theorem within_or_within {w : List Char} (apart : c ∉ w) (within : w <:+: xs ++ c :: ys) :
    w <:+: xs ∨ w <:+: ys := by
  obtain ⟨before, after, whole⟩ := within
  rw [List.append_assoc] at whole
  rcases List.append_eq_append_iff.mp whole with ⟨z, rfl, split⟩ | ⟨z, rfl, split⟩
  · rcases List.append_eq_append_iff.mp split with ⟨y, rfl, -⟩ | ⟨y, rfl, ends⟩
    · exact .inl ⟨before, y, List.append_assoc ..⟩
    · cases y with
      | nil => exact .inl ⟨before, [], by simp⟩
      | cons d y =>
          obtain ⟨rfl, -⟩ := List.cons.inj ends
          exact absurd (List.mem_append_right z (List.mem_cons_self ..)) apart
  · cases z with
    | nil =>
        cases w with
        | nil => exact .inl (List.nil_infix)
        | cons d w =>
            obtain ⟨rfl, -⟩ := List.cons.inj split
            exact absurd (List.mem_cons_self ..) apart
    | cons d z =>
        obtain ⟨rfl, rfl⟩ := List.cons.inj split
        exact .inr ⟨z, after, List.append_assoc ..⟩

/-- The word does not arise where texts are joined by a character that is none of its letters. -/
theorem Silent.join (first : Silent xs) (second : Silent ys)
    (apart : Text.asciiLower c ∉ "verify".toList) : Silent (xs ++ c :: ys) := by
  intro within
  rw [List.map_append, List.map_cons] at within
  exact (within_or_within apart within).elim first second

theorem Silent.suffix (silent : Silent cs) (tail : xs <:+ cs) : Silent xs :=
  fun within => silent (within.trans (tail.map Text.asciiLower).isInfix)

theorem not_silent_of_verify (read : (xs, rest) ∈ word "verify" cs) : ¬ Silent cs := by
  obtain ⟨rfl, spelled⟩ := (mem_word (by decide)).mp read
  have lower : xs.map Text.asciiLower = "verify".toList := by
    rw [← spelled]
    refine List.map_congr_left fun c there => ?_
    have letter : plainLetter c ∈ "verify".toList := spelled ▸ List.mem_map_of_mem there
    have long : c ≠ 'ſ' := by
      rintro rfl
      exact absurd letter (by decide)
    have kelvin : c ≠ '\u212a' := by
      rintro rfl
      exact absurd letter (by decide)
    rw [plainLetter, if_neg long, if_neg kelvin]
  intro silent
  refine silent ⟨[], rest.map Text.asciiLower, ?_⟩
  rw [List.nil_append, List.map_append, lower]

/-- A statement with a subject holds the word. -/
theorem Silent.headless (silent : Silent cs) : Headless cs := by
  intro t tail
  rw [List.eq_nil_iff_forall_not_mem]
  rintro ⟨s, rest⟩ read
  rw [headings_eq] at read
  obtain ⟨a, mid, verb, -⟩ := mem_bind.mp read
  exact not_silent_of_verify verb (silent.suffix tail)

/-! ## Families -/

theorem begins_statement (f : Family) : Begins ["verify"] f.statement :=
  (((begins_word "verify").bind _).bind _).bind _

theorem begins_reading (f : Family) : Begins ["verify"] f.reading := by
  cases f with
  | page => exact begins_statement .page
  | text | value | state => exact (begins_statement _).bind _

theorem heading_of_reading {x : Option VerifyStatement × List Char} (read : x ∈ f.reading cs) :
    ∃ s mid, (s, mid) ∈ f.heading cs := by
  have inside {x : Option VerifyStatement × List Char} (read : x ∈ f.statement cs) :
      ∃ s mid, (s, mid) ∈ f.heading cs := by
    obtain ⟨s, mid, heading, -⟩ := mem_bind.mp read
    exact ⟨s, mid, heading⟩
  cases f with
  | page => exact inside read
  | text | value | state =>
      obtain ⟨_, _, read, -⟩ := mem_bind.mp read
      exact inside read

/-- Where one family has its heading, no other can be read. -/
theorem reading_eq_nil {s : Subject} (heading : (s, rest) ∈ f.heading cs) (other : g ≠ f) :
    g.reading cs = [] := by
  rw [List.eq_nil_iff_forall_not_mem]
  intro x read
  obtain ⟨s', mid, heading'⟩ := heading_of_reading read
  exact other (heading_unique heading' heading)

theorem reading_of_headless (headless : Headless cs) (f : Family) (xs : List Char)
    (tail : xs <:+ cs) : f.reading xs = [] := by
  rw [List.eq_nil_iff_forall_not_mem]
  intro x read
  obtain ⟨s, mid, heading⟩ := heading_of_reading read
  have whole := (mem_heading heading).1
  rw [headless xs tail] at whole
  exact List.not_mem_nil whole

/-- Before the word starts again nothing is found. -/
theorem find?_append {r : Reading α} (begins : Begins ["verify"] r)
    (other : ∀ c ∈ xs, ¬ sameLetter 'v' c) (cs : List Char) : r.find? (xs ++ cs) = r.find? cs := by
  induction xs with
  | nil => rfl
  | cons c xs ih =>
      obtain ⟨first, other⟩ := List.forall_mem_cons.mp other
      have unread : r (c :: (xs ++ cs)) = [] := by
        rw [List.eq_nil_iff_forall_not_mem]
        intro x read
        obtain ⟨w, only, ⟨a, rest⟩, found⟩ := begins _ x read
        rw [List.mem_singleton.mp only] at found
        obtain ⟨d, mid, letter, -⟩ := mem_bind.mp found
        obtain ⟨same, letter⟩ := mem_char.mp letter
        obtain ⟨rfl, -⟩ := List.cons.inj same
        exact first letter
      rw [List.cons_append, find?, unread]
      exact ih other

/-- Where a family cannot be read at the head of a line and no statement starts later in it, the
family is found nowhere. -/
theorem find?_of_line (f : Family) (headless : Headless cs)
    (unread : f.reading ("verify".toList ++ ' ' :: cs) = []) :
    f.reading.find? ("verify".toList ++ ' ' :: cs) = none := by
  have skipped : f.reading.find? ("erify ".toList ++ cs) = f.reading.find? cs :=
    find?_append (begins_reading f) (by decide) cs
  have later : f.reading.find? cs = none := find?_eq_none (reading_of_headless headless f)
  change f.reading.find? ('v' :: ("erify ".toList ++ cs)) = none
  change f.reading ('v' :: ("erify ".toList ++ cs)) = [] at unread
  rw [find?, unread]
  exact skipped.trans later

/-- A statement at the head of a line in which no other starts is what the line holds. -/
theorem parse?_of_head {src : String} (line : src.toList = "verify".toList ++ ' ' :: cs)
    (first : (f.reading ("verify".toList ++ ' ' :: cs)).head? = some (some v, rest))
    (headless : Headless cs) : parse? src = some v := by
  obtain ⟨s, mid, heading⟩ := heading_of_reading (List.mem_of_head? first)
  have found := find?_of_head first
  have others : ∀ g, g ≠ f → g.reading.find? ("verify".toList ++ ' ' :: cs) = none :=
    fun g other => find?_of_line g headless (reading_eq_nil heading other)
  rw [parse?, families_eq, line]
  cases f <;> simp only [List.findSome?, found, others, ne_eq, reduceCtorEq, not_false_eq_true,
    Option.join_some]

/-- A statement without a subject, likewise. -/
theorem parse?_of_short {src : String} (line : src.toList = "verify".toList ++ ' ' :: cs)
    (first : (shortFamily ("verify".toList ++ ' ' :: cs)).head? = some (some v, rest))
    (subjectless : ∀ f : Family, f.reading ("verify".toList ++ ' ' :: cs) = [])
    (headless : Headless cs) : parse? src = some v := by
  have found := find?_of_head first
  have others : ∀ f : Family, f.reading.find? ("verify".toList ++ ' ' :: cs) = none :=
    fun f => find?_of_line f headless (subjectless f)
  rw [parse?, families_eq, line]
  simp only [List.findSome?, found, others, Option.join_some]

/-! ## A locator at the end of a line -/

/-- A locator that can be put in double quotes. -/
structure Locatable (l : String) : Prop where
  ne_nil : l.toList ≠ []
  closed : '"' ∉ l.toList
  silent : Silent l.toList

theorem Locatable.text?_eq {l : String} (locates : Locatable l) :
    Span.text? ⟨l.toList ++ ['"'], l.toList.length⟩ = some l := by
  have long : l.toList.length ≠ 0 := fun none =>
    locates.ne_nil (List.eq_nil_of_length_eq_zero none)
  simp [Span.text?, Span.chars, long]

theorem head?_afterRun {p : Char → Bool} (run : ∀ x ∈ xs, p x) (stop : ¬ p c) (n : Nat) :
    (afterRun p n (xs ++ c :: ys)).head? = some (n + xs.length, c :: ys) := by
  induction xs generalizing n with
  | nil => simp [afterRun, stop]
  | cons x xs ih =>
      obtain ⟨first, run⟩ := List.forall_mem_cons.mp run
      simp [afterRun, first, ih run, Nat.add_comm, Nat.add_left_comm]

/-- A text without double quotes is read up to the quote that ends the line. -/
theorem head?_quotedLocator (closed : '"' ∉ cs) :
    (quotedLocator ('"' :: (cs ++ ['"']))).head? = some (⟨cs ++ ['"'], cs.length⟩, []) := by
  have run : ∀ x ∈ cs, (x != '"') = true := by
    intro x there
    refine bne_iff_ne.mpr ?_
    rintro rfl
    exact closed there
  have last (n : Nat) : quotedTail n ['"'] = [(n, ['"'])] := by
    rw [quotedTail]
    rfl
  have whole : (afterRun (· != '"') 0 (cs ++ ['"'])).head? = some (0 + cs.length, ['"']) :=
    head?_afterRun run (by decide) 0
  rw [Nat.zero_add] at whole
  cases runs : afterRun (· != '"') 0 (cs ++ ['"']) with
  | nil => simp [runs] at whole
  | cons m ms =>
      rw [runs] at whole
      obtain rfl := Option.some.inj whole
      simp [quotedLocator, isQuote, runs, last]

theorem head?_inLocator (closed : '"' ∉ cs) :
    (inLocator ('i' :: 'n' :: ' ' :: '"' :: (cs ++ ['"']))).head? =
      some (⟨cs ++ ['"'], cs.length⟩, []) := by
  have connective : (['i', 'n'], ' ' :: '"' :: (cs ++ ['"'])) ∈
      word "in" ('i' :: 'n' :: ' ' :: '"' :: (cs ++ ['"'])) := word_self (w := "in") (by decide) _
  have gap : Gap [' '] := ⟨List.cons_ne_nil _ _, by decide⟩
  refine head?_bind_of_head (head?_of_sure (sure_word _) connective) ?_
  exact head?_bind_of_head (head?_someBlanks gap (unblanked_cons.mpr (by decide)))
    (head?_quotedLocator closed)

end BrowserScript.Script.VerifyStatement
