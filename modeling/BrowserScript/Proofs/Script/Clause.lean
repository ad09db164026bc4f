import BrowserScript.Proofs.Script.Preference
import BrowserScript.Proofs.Text.Words

/-!
Where the clause of a statement can start. Up to the first quote, a comparison is a phrase of one or
two words and no more; a statement of a state starts with a word of its own. So a target that holds
no quote, or does not hold that word, is not cut short. A clause that is complete is found in the
same place whatever follows it.
-/

namespace BrowserScript.Script.VerifyStatement

open Reading

variable {f : Family} {cs rest : List Char} {said : Option (Operator × String)}

/-! ## Words of a phrase -/

/-- How a word of small letters may be written. -/
def Spelled (w : String) (a : List Char) : Prop := a.map plainLetter = w.toList

instance (w : String) (a : List Char) : Decidable (Spelled w a) :=
  inferInstanceAs (Decidable (_ = _))

theorem Spelled.solid {w : String} {a : List Char} (spelled : Spelled w a) (plain : Plain w) :
    ∀ c ∈ a, ¬ Text.isBlank c := fun _ there =>
  not_blank_of_plainLetter (plain _ (spelled ▸ List.mem_map_of_mem there)) rfl

theorem Spelled.free {w : String} {a : List Char} (spelled : Spelled w a) (plain : Plain w) :
    ∀ c ∈ a, ¬ isQuote c := by
  intro c there quote
  have letter := plain _ (spelled ▸ List.mem_map_of_mem there)
  simp only [isQuote, Bool.or_eq_true, beq_iff_eq] at quote
  rcases quote with rfl | rfl <;> exact absurd letter (by decide)

theorem Spelled.words {w : String} {a : List Char} (spelled : Spelled w a)
    (plain : Plain w) (ne : w.toList ≠ []) : Text.words a = [a] := by
  refine Text.words_of_solid ?_ (spelled.solid plain)
  rintro rfl
  exact ne spelled.symm

theorem free_of_gap {bs : List Char} (gap : Gap bs) : ∀ c ∈ bs, ¬ isQuote c :=
  fun c there quote => not_blank_of_isQuote quote (gap.blank c there)

/-- The words of an operator. -/
def operatorWords (op : Operator) : List (List Char) := Text.words op.phrase.toList

/-- What is read as an operator. -/
structure Phrased (op : Operator) (o : List Char) : Prop where
  mem : op ∈ comparisons
  words : (Text.words o).map (·.map plainLetter) = operatorWords op
  free : ∀ c ∈ o, ¬ isQuote c

theorem phrased_of_word {op : Operator} {w : String} {o : List Char} (mem : op ∈ comparisons)
    (plain : PlainWords [w]) (same : operatorWords op = [w.toList]) (read : (o, rest) ∈ word w cs) :
    cs = o ++ rest ∧ Phrased op o := by
  obtain ⟨small, ne⟩ := plain w (List.mem_singleton_self w)
  obtain ⟨whole, spelled⟩ := (mem_word small).mp read
  have spelled : Spelled w o := spelled
  refine ⟨whole, mem, ?_, spelled.free small⟩
  rw [spelled.words small ne, same, List.map_singleton, spelled]

theorem phrased_of_twoWords {op : Operator} {w w' : String} {o : List Char}
    (mem : op ∈ comparisons) (plain : PlainWords [w, w'])
    (same : operatorWords op = [w.toList, w'.toList]) (read : (o, rest) ∈ twoWords w w' cs) :
    cs = o ++ rest ∧ Phrased op o := by
  obtain ⟨small, ne⟩ := plain w (List.mem_cons_self ..)
  obtain ⟨small', ne'⟩ := plain w' (by simp)
  obtain ⟨a, _, first, read⟩ := mem_bind.mp read
  obtain ⟨b, _, blanks, read⟩ := mem_bind.mp read
  obtain ⟨c, _, second, read⟩ := mem_bind.mp read
  obtain ⟨rfl, rfl⟩ := mem_pure.mp read
  obtain ⟨rfl, spelled⟩ := (mem_word small).mp first
  obtain ⟨rfl, gap⟩ := mem_someBlanks.mp blanks
  obtain ⟨rfl, spelled'⟩ := (mem_word small').mp second
  have spelled : Spelled w a := spelled
  have spelled' : Spelled w' c := spelled'
  refine ⟨by simp only [List.append_assoc], mem, ?_, ?_⟩
  · rw [List.append_assoc, Text.words_append_blanks gap.ne_nil gap.blank,
      spelled.words small ne, spelled'.words small' ne', same]
    simp only [List.singleton_append, List.map_cons, List.map_nil]
    rw [spelled, spelled']
  · simp only [List.forall_mem_append]
    exact ⟨⟨spelled.free small, free_of_gap gap⟩, spelled'.free small'⟩

theorem phrased_of_phrase {op : Operator} {o : List Char} (mem : op ∈ comparisons)
    (read : (o, rest) ∈ phrase op cs) : cs = o ++ rest ∧ Phrased op o := by
  cases op with
  | equals | contains => exact phrased_of_word mem (by decide) (by decide) read
  | startsWith | endsWith => exact phrased_of_twoWords mem (by decide) (by decide) read
  | is => exact absurd mem (by decide)

theorem clause_eq_nil_of_solid {c : Char} (solid : ¬ Text.isBlank c) :
    f.clause (c :: cs) = [] := by
  rw [List.eq_nil_iff_forall_not_mem]
  rintro ⟨said, rest⟩ read
  obtain ⟨bs, mid, blanks, -⟩ := mem_bind.mp read
  obtain ⟨split, ne, blank⟩ := mem_someBlanks.mp blanks
  cases bs with
  | nil => exact ne rfl
  | cons b bs =>
      obtain ⟨rfl, -⟩ := List.cons.inj split
      exact solid (blank c (List.mem_cons_self ..))

/-! ## Comparisons -/

theorem saying_eq (compares : f ≠ .state) : f.saying = comparing := by
  cases f with
  | state => exact absurd rfl compares
  | text | value | page => rfl

/-- A comparison is a gap, an operator, a gap and a text in quotes. -/
theorem comparing_split (compares : f ≠ .state) (read : (said, rest) ∈ f.clause cs) :
    ∃ bs o bs' p e op, cs = bs ++ (o ++ (bs' ++ (p ++ rest))) ∧ Gap bs ∧ Phrased op o ∧ Gap bs' ∧
      Quoted p e ∧ said = (parseOperator? o).map (·, e) := by
  have compared : f.saying = comparing := saying_eq compares
  obtain ⟨bs, _, blanks, read⟩ := mem_bind.mp read
  rw [compared] at read
  obtain ⟨o, _, phrasing, read⟩ := mem_bind.mp read
  obtain ⟨bs', _, blanks', read⟩ := mem_bind.mp read
  obtain ⟨e, _, closed, read⟩ := mem_bind.mp read
  obtain ⟨meant, rfl⟩ := mem_pure.mp read
  rw [operatorPhrase_eq] at phrasing
  obtain ⟨op, mem, chosen⟩ := mem_choice.mp phrasing
  obtain ⟨rfl, gap⟩ := mem_someBlanks.mp blanks
  obtain ⟨rfl, phrased⟩ := phrased_of_phrase mem chosen
  obtain ⟨rfl, gap'⟩ := mem_someBlanks.mp blanks'
  obtain ⟨p, rfl, quoted⟩ := mem_quotedText.mp closed
  exact ⟨bs, o, bs', p, e, op, rfl, gap, phrased, gap', quoted, meant⟩

/-- What stands before the first quote is the same on both sides. -/
theorem eq_of_first_quote {xs xs' ys ys' : List Char} {q q' : Char}
    (free : ∀ c ∈ xs, ¬ isQuote c) (free' : ∀ c ∈ xs', ¬ isQuote c) (quote : isQuote q)
    (quote' : isQuote q') (same : xs ++ q :: ys = xs' ++ q' :: ys') : xs = xs' := by
  have pass (zs : List Char) (free : ∀ c ∈ zs, ¬ isQuote c) : ∀ c ∈ zs, (!isQuote c) = true :=
    fun c there => by simpa using free c there
  have stop {c : Char} (quote : isQuote c) : ¬ (!isQuote c) = true := by simpa using quote
  calc
    xs = (xs ++ q :: ys).takeWhile (!isQuote ·) :=
      (takeWhile_dropWhile_of_stop (pass xs free) (stop quote) ys).1.symm
    _ = (xs' ++ q' :: ys').takeWhile (!isQuote ·) := by rw [same]
    _ = xs' := (takeWhile_dropWhile_of_stop (pass xs' free') (stop quote') ys').1

/-- Up to the first quote a comparison is its operator. -/
theorem words_before_quote (compares : f ≠ .state) {lead u : List Char} {q : Char}
    (free : ∀ c ∈ lead, ¬ isQuote c) (quote : isQuote q)
    (read : (said, rest) ∈ f.clause (lead ++ q :: u)) :
    ∃ op ∈ comparisons, (Text.words lead).map (·.map plainLetter) = operatorWords op := by
  obtain ⟨bs, o, bs', p, e, op, split, gap, phrased, gap', quoted, -⟩ :=
    comparing_split compares read
  obtain ⟨ne, opens, closes, inner⟩ := quoted
  rename_i q₁ q₂ e
  have split : lead ++ q :: u = bs ++ (o ++ bs') ++ q₁ :: (e ++ [q₂] ++ rest) := by
    simpa using split
  have free' : ∀ c ∈ bs ++ (o ++ bs'), ¬ isQuote c := by
    simp only [List.forall_mem_append]
    exact ⟨free_of_gap gap, phrased.free, free_of_gap gap'⟩
  refine ⟨op, phrased.mem, ?_⟩
  rw [eq_of_first_quote free free' quote opens split, Text.words_blanks_append gap.blank,
    Text.words_append_of_blanks gap'.blank, phrased.words]

/-- No comparison starts earlier than the operator before the first quote. -/
theorem no_comparison_before (compares : f ≠ .state) {op : Operator} (mem : op ∈ comparisons)
    {d : List Char} (free : ∀ c ∈ d, ¬ isQuote c) {c : Char} (there : c ∈ d)
    (solid : ¬ Text.isBlank c) {q : Char} (quote : isQuote q) (u : List Char) :
    f.clause (d ++ ' ' :: (op.phrase.toList ++ ' ' :: q :: u)) = [] := by
  have whole : d ++ ' ' :: (op.phrase.toList ++ ' ' :: q :: u) =
      d ++ (' ' :: op.phrase.toList ++ [' ']) ++ q :: u := by simp
  have lone : ¬ isQuote ' ' := by decide
  have facts : ∀ op ∈ comparisons, (∀ c ∈ op.phrase.toList, ¬ isQuote c) ∧
      (operatorWords op).map (·.map plainLetter) = operatorWords op := by decide
  obtain ⟨quoteless, small⟩ := facts op mem
  have free' : ∀ c ∈ d ++ (' ' :: op.phrase.toList ++ [' ']), ¬ isQuote c := by
    simp only [List.forall_mem_append, List.forall_mem_cons]
    exact ⟨free, ⟨lone, quoteless⟩, lone, by simp⟩
  have words : Text.words (d ++ (' ' :: op.phrase.toList ++ [' '])) =
      Text.words d ++ operatorWords op := by
    rw [List.cons_append, Text.words_append_blank rfl, Text.words_append_blank rfl]
    exact congrArg (_ ++ ·) (List.append_nil _)
  rw [whole, List.eq_nil_iff_forall_not_mem]
  rintro ⟨said, rest⟩ read
  obtain ⟨op', mem', same⟩ := words_before_quote compares free' quote read
  rw [words, List.map_append, small] at same
  -- No operator ends with the words of another, so no word is left for `d`.
  have apart : ∀ op ∈ comparisons, ∀ op' ∈ comparisons,
      operatorWords op <:+ operatorWords op' → op = op' := by decide
  obtain rfl := apart op mem op' mem' ⟨_, same⟩
  have none : (Text.words d).map (·.map plainLetter) = [] := List.append_left_eq_self.mp same
  exact Text.words_ne_nil there solid (List.map_eq_nil_iff.mp none)

theorem parseOperator?_phrase {op : Operator} (mem : op ∈ comparisons) :
    parseOperator? op.phrase.toList = some op := by
  have all : ∀ op ∈ comparisons, parseOperator? op.phrase.toList = some op := by decide
  exact all op mem

theorem space_someBlanks (cs : List Char) : ([' '], cs) ∈ someBlanks (' ' :: cs) :=
  mem_someBlanks.mpr ⟨rfl, List.cons_ne_nil _ _, by decide⟩

theorem operatorPhrase_phrase {op : Operator} (mem : op ∈ comparisons) (rest : List Char) :
    (op.phrase.toList, rest) ∈ operatorPhrase (op.phrase.toList ++ rest) := by
  have two {w w' : String} (plain : Plain w) (plain' : Plain w') :
      (w.toList ++ [' '] ++ w'.toList, rest) ∈
        twoWords w w' (w.toList ++ ' ' :: (w'.toList ++ rest)) := by
    refine mem_bind.mpr ⟨w.toList, _, word_self plain _, ?_⟩
    refine mem_bind.mpr ⟨[' '], _, space_someBlanks _, ?_⟩
    exact mem_bind.mpr ⟨w'.toList, _, word_self plain' _, mem_pure.mpr ⟨rfl, rfl⟩⟩
  rw [operatorPhrase_eq]
  refine mem_choice.mpr ⟨op, mem, ?_⟩
  cases op with
  | equals | contains => exact word_self (by decide) rest
  | startsWith | endsWith => exact two (by decide) (by decide)
  | is => exact absurd mem (by decide)

theorem comparing_of_phrase (compares : f ≠ .state) {op : Operator} (mem : op ∈ comparisons)
    {e : List Char} (ne : e ≠ []) (free : ∀ c ∈ e, ¬ isQuote c) (rest : List Char) :
    (some (op, String.ofList e), rest) ∈
      f.clause (' ' :: (op.phrase.toList ++ ' ' :: '"' :: (e ++ '"' :: rest))) := by
  have compared : f.saying = comparing := saying_eq compares
  refine mem_bind.mpr ⟨[' '], _, space_someBlanks _, ?_⟩
  rw [compared]
  refine mem_bind.mpr ⟨op.phrase.toList, _, operatorPhrase_phrase mem _, ?_⟩
  refine mem_bind.mpr ⟨[' '], _, space_someBlanks _, ?_⟩
  refine mem_bind.mpr ⟨String.ofList e, rest, mem_quotedText.mpr ?_, ?_⟩
  · exact ⟨'"' :: (e ++ ['"']), by simp, .intro ne rfl rfl free⟩
  · rw [mem_pure, parseOperator?_phrase mem]
    exact ⟨rfl, rfl⟩

/-! ## Statements of a state -/

theorem mem_all (state : ElementState) : state ∈ ElementState.all := by
  cases state <;> decide

theorem plain_word (state : ElementState) : Plain state.word := by
  cases state <;> decide

/-- A statement of a state is a gap, the word `is`, a gap and the word of the state. -/
theorem stating_split (read : (said, rest) ∈ Family.state.clause cs) :
    ∃ bs i bs' st, ∃ state : ElementState, cs = bs ++ (i ++ (bs' ++ (st ++ rest))) ∧ Gap bs ∧
      Spelled "is" i ∧ Gap bs' ∧ Spelled state.word st ∧
      said = some (.is, Text.lowered (String.ofList st)) := by
  obtain ⟨bs, _, blanks, read⟩ := mem_bind.mp read
  obtain ⟨i, _, verb, read⟩ := mem_bind.mp read
  obtain ⟨bs', _, blanks', read⟩ := mem_bind.mp read
  obtain ⟨st, _, chosen, read⟩ := mem_bind.mp read
  obtain ⟨meant, rfl⟩ := mem_pure.mp read
  rw [stateWord_eq] at chosen
  obtain ⟨state, mem, chosen⟩ := mem_choice.mp chosen
  obtain ⟨rfl, gap⟩ := mem_someBlanks.mp blanks
  obtain ⟨rfl, spelled⟩ := (mem_word (by decide)).mp verb
  obtain ⟨rfl, gap'⟩ := mem_someBlanks.mp blanks'
  obtain ⟨rfl, spelled'⟩ := (mem_word (plain_word state)).mp chosen
  exact ⟨bs, i, bs', st, state, rfl, gap, spelled, gap', spelled', meant⟩

/-- No statement of a state starts within words of which none is `is`. -/
theorem no_stating_before {d : List Char} (other : ∀ w ∈ Text.words d, ¬ Spelled "is" w)
    {c : Char} (there : c ∈ d) (solid : ¬ Text.isBlank c) {b : Char} (blank : Text.isBlank b)
    (u : List Char) : Family.state.clause (d ++ b :: u) = [] := by
  rw [List.eq_nil_iff_forall_not_mem]
  rintro ⟨said, rest⟩ read
  obtain ⟨bs, i, bs', st, state, split, gap, spelled, gap', -, -⟩ := stating_split read
  have first : Text.words d ++ Text.words u = i :: Text.words (st ++ rest) := by
    calc
      Text.words d ++ Text.words u = Text.words (d ++ b :: u) :=
        (Text.words_append_blank blank d u).symm
      _ = Text.words (i ++ (bs' ++ (st ++ rest))) := by
        rw [split, Text.words_blanks_append gap.blank]
      _ = [i] ++ Text.words (st ++ rest) := by
        rw [Text.words_append_blanks gap'.ne_nil gap'.blank,
          spelled.words (by decide) (by decide)]
  cases words : Text.words d with
  | nil => exact Text.words_ne_nil there solid words
  | cons w ws =>
      rw [words] at first
      obtain ⟨rfl, -⟩ := List.cons.inj first
      exact other w (words ▸ List.mem_cons_self ..) spelled

theorem stating_of_word (state : ElementState) (rest : List Char) :
    (some (.is, state.word), rest) ∈
      Family.state.clause (' ' :: 'i' :: 's' :: ' ' :: (state.word.toList ++ rest)) := by
  have small : Text.lowered (String.ofList state.word.toList) = state.word := by
    have ascii : ∀ c ∈ state.word.toList, c.toNat < 0x80 := by cases state <;> decide
    rw [Text.lowered_of_ascii ascii]
    cases state <;> decide
  refine mem_bind.mpr ⟨[' '], _, space_someBlanks _, ?_⟩
  refine mem_bind.mpr ⟨['i', 's'], _, (mem_word (by decide)).mpr ⟨rfl, by decide⟩, ?_⟩
  refine mem_bind.mpr ⟨[' '], _, space_someBlanks _, ?_⟩
  refine mem_bind.mpr ⟨state.word.toList, rest, ?_, ?_⟩
  · rw [stateWord_eq]
    exact mem_choice.mpr ⟨state, mem_all state, word_self (plain_word state) rest⟩
  rw [mem_pure, small]
  exact ⟨rfl, rfl⟩

end BrowserScript.Script.VerifyStatement
