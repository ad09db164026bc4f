import BrowserScript.Proofs.Script.Clause
import BrowserScript.Proofs.Script.Finding

/-!
Verify statements in their documented forms are read back as they were meant. The forms are those of
the families; the texts in them are arbitrary but for the characters that end them.
-/

namespace BrowserScript.Script.VerifyStatement

open Reading

/-- A statement in a documented form. -/
inductive Sentence
  | ofElement (subject : Subject) (target : Option String) (operator : Operator)
      (expected : String) (locator : Option String)
  | ofState (target : Option String) (state : ElementState) (locator : Option String)
  | ofPage (subject : Subject) (operator : Operator) (expected : String)
  | short (expected locator : String)

namespace Sentence

def meaning : Sentence → VerifyStatement
  | ofElement subject target operator expected locator =>
    ⟨subject, operator, expected, locator, target⟩
  | ofState target state locator => ⟨.state, .is, state.word, locator, target⟩
  | ofPage subject operator expected => ⟨subject, operator, expected, none, none⟩
  | short expected locator => ⟨.text, .contains, expected, some locator, none⟩

def ofPart : Option String → String
  | none => ""
  | some target => " of " ++ target

def inPart : Option String → String
  | none => ""
  | some locator => " in \"" ++ locator ++ "\""

def comparisonText (operator : Operator) (expected : String) : String :=
  operator.phrase ++ " \"" ++ expected ++ "\""

def sentence (subject : Subject) (target : Option String) (clause : String)
    (locator : Option String) : String :=
  "verify " ++ subject.word ++ ofPart target ++ " " ++ clause ++ inPart locator

def written : Sentence → String
  | ofElement subject target operator expected locator =>
    sentence subject target (comparisonText operator expected) locator
  | ofState target state locator => sentence .state target ("is " ++ state.word) locator
  | ofPage subject operator expected =>
      sentence subject none (comparisonText operator expected) none
  | short expected locator => "verify \"" ++ expected ++ "\"" ++ inPart (some locator)

theorem toList_comparisonText (op : Operator) (e : String) (rest : List Char) :
    (comparisonText op e).toList ++ rest =
      op.phrase.toList ++ ' ' :: '"' :: (e.toList ++ '"' :: rest) := by
  simp [comparisonText]

theorem toList_sentence (s : Subject) (target : Option String) (clause : String)
    (locator : Option String) : (sentence s target clause locator).toList = "verify".toList ++
      ' ' :: (s.word.toList ++ ((ofPart target).toList ++
        ' ' :: (clause.toList ++ (inPart locator).toList))) := by
  simp [sentence]

end Sentence

/-- An expected text that can be put in quotes. -/
structure Expectable (e : String) : Prop where
  ne_nil : e.toList ≠ []
  free : ∀ c ∈ e.toList, ¬ isQuote c
  silent : Silent e.toList

/-- A target. The word `is` is a word of the statement in any letter case. -/
structure Targetable (t : String) : Prop where
  ne_nil : t.toList ≠ []
  trimmed : Text.trim t.toList = t.toList
  ascii : ∀ c ∈ t.toList, c.toNat < 0x80
  free : ∀ c ∈ t.toList, ¬ isQuote c
  other : ∀ w ∈ Text.words t.toList, w.map Text.asciiLower ≠ ['i', 's']
  silent : Silent t.toList

/-- The texts of the sentence can be told from its words. -/
inductive Sentence.Plain : Sentence → Prop
  | ofElement {s : Subject} {target : Option String} {op : Operator} {e : String}
      {locator : Option String} (subject : s ∈ [.text, .value, .placeholder])
      (aims : ∀ t ∈ target, Targetable t) (compares : op ∈ comparisons) (expects : Expectable e)
      (locates : ∀ l ∈ locator, Locatable l) : Plain (ofElement s target op e locator)
  | ofState {target : Option String} {state : ElementState} {locator : Option String}
      (aims : ∀ t ∈ target, Targetable t) (locates : ∀ l ∈ locator, Locatable l) :
      Plain (ofState target state locator)
  | ofPage {s : Subject} {op : Operator} {e : String} (subject : s ∈ [.title, .url])
      (compares : op ∈ comparisons) (expects : Expectable e) : Plain (ofPage s op e)
  | short {e l : String} (expects : Expectable e) (locates : Locatable l) : Plain (short e l)

/-! ## Targets -/

variable {f : Family} {s : Subject} {cs rest u : List Char} {said : Option (Operator × String)}

theorem Targetable.unblanked {t : String} (aims : Targetable t) : Unblanked t.toList :=
  (Text.ends_of_trim aims.trimmed).1

/-- What a target ends with is not blank. -/
theorem Targetable.solid {t : String} (aims : Targetable t) {d e : List Char} (ne : e ≠ [])
    (split : t.toList = d ++ e) : ∃ c ∈ e, ¬ Text.isBlank c := by
  have last := (Text.ends_of_trim aims.trimmed).2
  rw [split, List.reverse_append] at last
  cases reversed : e.reverse with
  | nil => exact absurd (List.reverse_eq_nil_iff.mp reversed) ne
  | cons c cs =>
      rw [reversed, List.cons_append] at last
      refine ⟨c, List.mem_reverse.mp (reversed ▸ List.mem_cons_self ..), ?_⟩
      exact unblanked_cons.mp last

theorem Targetable.no_comparison {t : String} (aims : Targetable t) (compares : f ≠ .state)
    {op : Operator} (mem : op ∈ comparisons) (u : List Char) {d e : List Char} (ne : e ≠ [])
    (split : t.toList = d ++ e) :
    f.clause (e ++ ' ' :: (op.phrase.toList ++ ' ' :: '"' :: u)) = [] := by
  obtain ⟨c, there, solid⟩ := aims.solid ne split
  have free := aims.free
  rw [split] at free
  exact no_comparison_before compares mem (List.forall_mem_append.mp free).2 there solid rfl u

theorem Targetable.no_state {t : String} (aims : Targetable t) (u : List Char) {d e : List Char}
    (ne : e ≠ []) (split : t.toList = d ++ e) : Family.state.clause (e ++ ' ' :: u) = [] := by
  obtain ⟨c, there, solid⟩ := aims.solid ne split
  cases e with
  | nil => exact absurd rfl ne
  | cons b e =>
      by_cases blank : Text.isBlank b
      · refine no_stating_before (fun w mem spelled => ?_) there solid rfl u
        have skip : Text.words (b :: e) = Text.words e := Text.words_append_blank blank [] e
        have mem : w ∈ Text.words t.toList := by
          rw [split, Text.words_append_blank blank]
          exact List.mem_append_right _ (skip ▸ mem)
        refine aims.other w mem (Eq.trans ?_ spelled)
        refine List.map_congr_left fun c there => (plainLetter_of_ascii ?_).symm
        exact aims.ascii c (Text.mem_of_mem_words mem there)
      · exact clause_eq_nil_of_solid blank

/-! ## Statements in parts -/

theorem heading_self (mem : s ∈ f.subjects) (rest : List Char) :
    (s, rest) ∈ f.heading ("verify".toList ++ ' ' :: (s.word.toList ++ rest)) := by
  have plain : ∀ s ∈ named, Plain s.word := by decide
  refine mem_bind.mpr ⟨(), s.word.toList ++ rest, ?_, ?_⟩
  · refine mem_bind.mpr ⟨"verify".toList, _, word_self (by decide) _, ?_⟩
    refine mem_bind.mpr ⟨[' '], _, space_someBlanks _, ?_⟩
    refine mem_bind.mpr ⟨none, _, mem_optional.mpr (.inr ⟨rfl, rfl⟩), ?_⟩
    exact mem_bind.mpr ⟨none, _, mem_optional.mpr (.inr ⟨rfl, rfl⟩), mem_pure.mpr ⟨rfl, rfl⟩⟩
  · refine mem_choice.mpr ⟨s, mem, mem_bind.mpr ⟨s.word.toList, rest, ?_, mem_pure.mpr ⟨rfl, rfl⟩⟩⟩
    exact word_self (plain s (mem_named_of_subjects mem)) rest

/-- A statement of which no clause starts within the target. -/
theorem statement_of_parts {target : Option String} (mem : s ∈ f.subjects)
    (aims : ∀ t ∈ target, f ≠ .page ∧ Targetable t) (read : (said, rest) ∈ f.clause u)
    (before : ∀ t ∈ target, ∀ d e, e ≠ [] → t.toList = d ++ e → f.clause (e ++ u) = []) :
    (f.statement ("verify".toList ++
      ' ' :: (s.word.toList ++ ((Sentence.ofPart target).toList ++ u)))).head? =
      some (about s target said, rest) := by
  rw [Family.statement, head?_bind_of_sure (sure_heading f) (heading_self mem _)]
  cases target with
  | none => exact predicate_of_clause read
  | some t =>
      obtain ⟨targets, aims⟩ := aims t rfl
      have gap : Gap [' '] := ⟨List.cons_ne_nil _ _, by decide⟩
      have found := predicate_of_target (s := s) targets gap (o := ['o', 'f']) (by decide) gap
        aims.ne_nil aims.unblanked read fun d e _ ne split => before t rfl d e ne split
      rw [String.ofList_toList] at found
      rw [← found]
      simp [Sentence.ofPart]

theorem located_of_part {locator : Option String} {v : VerifyStatement}
    (locates : ∀ l ∈ locator, Locatable l) :
    (located (some v) (Sentence.inPart locator).toList).head? =
      some (some { v with locator }, []) := by
  cases locator with
  | none => exact located_plain (List.forall_mem_nil _) rfl rfl
  | some l =>
      have written : (Sentence.inPart (some l)).toList =
          [' '] ++ 'i' :: 'n' :: ' ' :: '"' :: (l.toList ++ ['"']) := by
        simp [Sentence.inPart]
      rw [written, located_at (by decide) (unblanked_cons.mpr (by decide))
        (head?_inLocator (locates l rfl).closed), (locates l rfl).text?_eq]

/-! ## Sentences -/

theorem silent_ofPart {target : Option String} {xs u : List Char}
    (aims : ∀ t ∈ target, Targetable t) (first : Silent xs) (last : Silent u) :
    Silent (xs ++ ((Sentence.ofPart target).toList ++ ' ' :: u)) := by
  have apart : Text.asciiLower ' ' ∉ "verify".toList := by decide
  cases target with
  | none => exact first.join last apart
  | some t =>
      have preposition : Silent ['o', 'f'] := by decide
      have whole := first.join (preposition.join ((aims t rfl).silent.join last apart) apart) apart
      simpa [Sentence.ofPart] using whole

theorem silent_inPart {locator : Option String} {xs : List Char}
    (locates : ∀ l ∈ locator, Locatable l) (first : Silent xs) :
    Silent (xs ++ (Sentence.inPart locator).toList) := by
  have apart : Text.asciiLower '"' ∉ "verify".toList := by decide
  cases locator with
  | none => simpa [Sentence.inPart] using first
  | some l =>
      have connective : Silent ['i', 'n', ' '] := by decide
      have empty : Silent [] := by decide
      have whole := first.join (connective.join ((locates l rfl).silent.join empty apart) apart)
        (c := ' ') (by decide)
      simpa [Sentence.inPart] using whole

theorem Expectable.silent_quoted {e : String} {xs u : List Char} (expects : Expectable e)
    (first : Silent xs) (last : Silent u) :
    Silent (xs ++ ' ' :: '"' :: (e.toList ++ '"' :: u)) := by
  have apart : Text.asciiLower '"' ∉ "verify".toList := by decide
  have empty : Silent [] := by decide
  exact first.join (empty.join (expects.silent.join last apart) apart) (by decide)

theorem not_word_of_quote {w : String} (plain : PlainWords [w]) (u : List Char) :
    word w ('"' :: u) = [] := by
  obtain ⟨small, ne⟩ := plain w (List.mem_singleton_self w)
  rw [List.eq_nil_iff_forall_not_mem]
  rintro ⟨a, rest⟩ read
  obtain ⟨split, spelled⟩ := (mem_word small).mp read
  have spelled : Spelled w a := spelled
  cases a with
  | nil => exact ne spelled.symm
  | cons c a =>
      obtain ⟨rfl, -⟩ := List.cons.inj split
      exact spelled.free small _ (List.mem_cons_self ..) rfl

/-- No family with a subject can be read where a text in quotes follows the verb. -/
theorem reading_of_quote (f : Family) (u : List Char) :
    f.reading ("verify".toList ++ ' ' :: '"' :: u) = [] := by
  rw [List.eq_nil_iff_forall_not_mem]
  intro x read
  obtain ⟨s, rest, heading⟩ := heading_of_reading read
  have names : Begins (named.map Subject.word) (choice subjectWord named) :=
    .choice Subject.word begins_subjectWord named
  have begins := begins_leftOut (w := "that") (begins_leftOut (w := "the") names)
  have whole := (mem_heading heading).1
  rw [headings_eq] at whole
  obtain ⟨a, mid, verb, whole⟩ := mem_bind.mp whole
  cases sure_word _ _ _ verb _ (word_self (w := "verify") (by decide) (' ' :: '"' :: u))
  obtain ⟨bs, mid, blanks, whole⟩ := mem_bind.mp whole
  obtain ⟨same, gap⟩ := mem_someBlanks.mp blanks
  have solid := (begins.solid (by decide)).unblanked whole
  have space : Gap [' '] := ⟨List.cons_ne_nil _ _, by decide⟩
  obtain ⟨-, rfl⟩ := gap_unique space gap same (unblanked_cons.mpr (by decide)) solid
  obtain ⟨w, mem, y, found⟩ := begins _ _ whole
  have plain : ∀ w ∈ "that" :: "the" :: named.map Subject.word, PlainWords [w] := by decide
  rw [not_word_of_quote (plain w mem)] at found
  exact List.not_mem_nil found

theorem silent_word (s : Subject) : Silent s.word.toList := by
  cases s <;> decide

theorem silent_phrase (op : Operator) : Silent op.phrase.toList := by
  cases op <;> decide

/-- A statement that may name a target and a locator. -/
theorem parse?_of_parts {target locator : Option String} {op : Operator} {e src : String}
    (targets : f ≠ .page) (mem : s ∈ f.subjects) (aims : ∀ t ∈ target, Targetable t)
    (locates : ∀ l ∈ locator, Locatable l)
    (read : (some (op, e), (Sentence.inPart locator).toList) ∈ f.clause (' ' :: u))
    (before : ∀ t ∈ target, ∀ d e, e ≠ [] → t.toList = d ++ e → f.clause (e ++ ' ' :: u) = [])
    (silent : Silent u)
    (line : src.toList = "verify".toList ++
      ' ' :: (s.word.toList ++ ((Sentence.ofPart target).toList ++ ' ' :: u))) :
    parse? src = some ⟨s, op, e, locator, target⟩ := by
  have statement := statement_of_parts mem (fun t there => ⟨targets, aims t there⟩) read before
  have first := head?_bind_of_head statement (located_of_part locates)
  rw [← reading_eq targets] at first
  exact parse?_of_head line first (silent_ofPart aims (silent_word s) silent).headless

theorem head?_shortFamily {e l : String} (expects : Expectable e) (locates : Locatable l) :
    (shortFamily ("verify".toList ++ ' ' :: '"' :: (e.toList ++
      '"' :: (Sentence.inPart (some l)).toList))).head? =
      some (some (Sentence.short e l).meaning, []) := by
  have gap : Gap [' '] := ⟨List.cons_ne_nil _ _, by decide⟩
  have verb := word_self (w := "verify") (by decide)
    (' ' :: '"' :: (e.toList ++ '"' :: (Sentence.inPart (some l)).toList))
  have text : (e, (Sentence.inPart (some l)).toList) ∈
      quotedText ('"' :: (e.toList ++ '"' :: (Sentence.inPart (some l)).toList)) := by
    have quoted : Quoted ('"' :: (e.toList ++ ['"'])) (String.ofList e.toList) :=
      .intro expects.ne_nil rfl rfl expects.free
    rw [String.ofList_toList] at quoted
    exact mem_quotedText.mpr ⟨_, by simp, quoted⟩
  have tail : (Sentence.inPart (some l)).toList =
      [' '] ++ 'i' :: 'n' :: ' ' :: '"' :: (l.toList ++ ['"']) := by simp [Sentence.inPart]
  refine head?_bind_of_head (head?_of_sure (sure_word _) verb) ?_
  refine head?_bind_of_head (head?_someBlanks gap (unblanked_cons.mpr (by decide))) ?_
  refine head?_bind_of_head (head?_of_sure sure_quotedText text) ?_
  rw [tail]
  refine head?_bind_of_head (head?_someBlanks gap (unblanked_cons.mpr (by decide))) ?_
  refine head?_bind_of_head (head?_inLocator locates.closed) ?_
  rw [locates.text?_eq]
  rfl

/-- A sentence is read as it was meant. -/
theorem parse?_written {sentence : Sentence} (plain : sentence.Plain) :
    parse? sentence.written = some sentence.meaning := by
  have empty : Silent [] := by decide
  cases plain with
  | ofElement subject aims compares expects locates =>
      rename_i s target op e locator
      obtain ⟨f, mem, targets, compared⟩ :
          ∃ f : Family, s ∈ f.subjects ∧ f ≠ .page ∧ f ≠ .state := by
        by_cases text : s = .text
        · exact ⟨.text, by simpa [Family.subjects] using text, by decide, by decide⟩
        · exact ⟨.value, (List.mem_cons.mp subject).resolve_left text, by decide, by decide⟩
      have read := comparing_of_phrase compared compares expects.ne_nil expects.free
        (Sentence.inPart locator).toList
      rw [String.ofList_toList] at read
      refine parse?_of_parts targets mem aims locates read
        (fun t there d e ne split => (aims t there).no_comparison compared compares _ ne split)
        (expects.silent_quoted (silent_phrase op) (silent_inPart locates empty)) ?_
      rw [← Sentence.toList_comparisonText]
      exact Sentence.toList_sentence ..
  | ofState aims locates =>
      rename_i target state locator
      have read := stating_of_word state (Sentence.inPart locator).toList
      have word : Silent state.word.toList := by cases state <;> decide
      have verb : Silent ['i', 's'] := by decide
      refine parse?_of_parts (s := .state) (by decide) (by decide) aims locates read
        (fun t there d e ne split => (aims t there).no_state _ ne split)
        (verb.join (silent_inPart locates word) (by decide)) ?_
      exact (Sentence.toList_sentence ..).trans (by simp)
  | ofPage subject compares expects =>
      rename_i s op e
      have mem : s ∈ Family.page.subjects := subject
      have read := comparing_of_phrase (f := .page) (by decide) compares expects.ne_nil expects.free
        []
      rw [String.ofList_toList] at read
      have untargeted {p : String → Prop} : ∀ t ∈ (none : Option String), p t :=
        fun t there => absurd there (Option.not_mem_none t)
      have statement := statement_of_parts mem untargeted read untargeted
      have silent := silent_ofPart untargeted (silent_word s)
        (expects.silent_quoted (silent_phrase op) empty)
      refine parse?_of_head (f := .page) ?_ statement silent.headless
      rw [← Sentence.toList_comparisonText]
      exact Sentence.toList_sentence ..
  | short expects locates =>
      rename_i e l
      have locates' : ∀ l' ∈ some l, Locatable l' := fun _ there =>
        Option.mem_some.mp there ▸ locates
      have whole : Silent ([] ++ '"' :: (e.toList ++ '"' :: (Sentence.inPart (some l)).toList)) :=
        empty.join (expects.silent.join (silent_inPart locates' empty) (by decide)) (by decide)
      refine parse?_of_short ?_ (head?_shortFamily expects locates) (fun f => reading_of_quote f _)
        whole.headless
      change ("verify \"" ++ e ++ "\"" ++ Sentence.inPart (some l)).toList = _
      simp only [String.toList_append, List.append_assoc]
      rfl

/-- A target of words that statements are made of. -/
def wordy : Sentence :=
  .ofElement .placeholder (some "value of in\tstarts with") .startsWith " in on "
    (some "//p[. = 'ends with' and @title='verif']")

theorem parse?_wordy : wordy.Plain ∧
    wordy.written = "verify placeholder of value of in\tstarts with starts with \" in on \" " ++
      "in \"//p[. = 'ends with' and @title='verif']\"" ∧
    parse? wordy.written = some ⟨.placeholder, .startsWith, " in on ",
      some "//p[. = 'ends with' and @title='verif']", some "value of in\tstarts with"⟩ := by
  have target : Targetable "value of in\tstarts with" :=
    ⟨by decide, by decide, by decide, by decide, by decide, by decide⟩
  have expected : Expectable " in on " := ⟨by decide, by decide, by decide⟩
  have locator : Locatable "//p[. = 'ends with' and @title='verif']" :=
    ⟨by decide, by decide, by decide⟩
  have plain : wordy.Plain :=
    .ofElement (by decide) (fun _ there => Option.mem_some.mp there ▸ target) (by decide) expected
      fun _ there => Option.mem_some.mp there ▸ locator
  exact ⟨plain, by decide, parse?_written plain⟩

end BrowserScript.Script.VerifyStatement
