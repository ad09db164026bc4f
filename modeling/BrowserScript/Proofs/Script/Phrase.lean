import BrowserScript.Script.Verify
import BrowserScript.Proofs.Script.Reading
import BrowserScript.Proofs.Text.Words

/-!
The parts of a verify statement. Every family but the short one opens with `verify`, names its
subject, may name a target, says something of it, and may end with a locator. Each part but the
target is read in at most one way.
-/

namespace BrowserScript.Script.VerifyStatement

open Reading

/-- A comparison: the operator, unless it is spelled in other than plain letters, and the expected
text. -/
def comparing : Reading (Option (Operator × String)) := do
  let op ← operatorPhrase
  let _ ← someBlanks
  let expected ← quotedText
  return (parseOperator? op).map (·, expected)

def stating : Reading (Option (Operator × String)) := do
  let _ ← word "is"
  let _ ← someBlanks
  let state ← stateWord
  return some (.is, Text.lowered (String.ofList state))

/-- The families that open with a subject. -/
inductive Family
  | text | value | state | page
deriving DecidableEq

namespace Family

def subjects : Family → List Subject
  | .text => [.text]
  | .value => [.value, .placeholder]
  | .state => [.state]
  | .page => [.title, .url]

def subject (f : Family) : Reading Subject := choice subjectWord f.subjects

def heading (f : Family) : Reading Subject := do
  opening
  f.subject

def target : Family → Reading (Option Span)
  | .page => pure none
  | _ => optional ofTarget

def saying : Family → Reading (Option (Operator × String))
  | .state => stating
  | _ => comparing

def clause (f : Family) : Reading (Option (Operator × String)) := do
  let _ ← someBlanks
  f.saying

/-- What follows the subject, up to the locator. -/
def predicate (f : Family) (s : Subject) : Reading (Option VerifyStatement) := do
  let target ← f.target
  let said ← f.clause
  return said.map fun (op, expected) => ⟨s, op, expected, none, spanText target⟩

/-- A statement up to its locator. -/
def statement (f : Family) : Reading (Option VerifyStatement) := do
  let s ← f.heading
  f.predicate s

end Family

/-- The locator at the end of a statement, if there is one. -/
def located (v : Option VerifyStatement) : Reading (Option VerifyStatement) := do
  let _ ← blanks
  let locator ← optional inLocator
  return v.map fun v => { v with locator := spanText locator }

def Family.reading : Family → Reading (Option VerifyStatement)
  | .page => Family.page.statement
  | f => f.statement >>= located

theorem reading_eq {f : Family} (aims : f ≠ .page) : f.reading = f.statement >>= located := by
  cases f with
  | page => exact absurd rfl aims
  | text | value | state => rfl

theorem comparison_eq (s : Subject) : comparison s = Family.text.predicate s >>= located := by
  simp only [comparison, comparing, located, Family.predicate, Family.target, Family.clause,
    Family.saying, bind_assoc, pure_bind, Option.map_map, Function.comp_def]

theorem subject_of_one {f : Family} {s : Subject} (only : f.subjects = [s]) :
    f.subject = subjectWord s := by
  rw [Family.subject, only]
  exact orElse_nothing _

theorem subject_of_two {f : Family} {s s' : Subject} (both : f.subjects = [s, s']) :
    f.subject = orElse (subjectWord s) (subjectWord s') := by
  rw [Family.subject, both]
  exact congrArg (orElse (subjectWord s)) (orElse_nothing _)

/-- The families in the order in which they are tried. -/
theorem families_eq : families =
    [Family.text.reading, Family.value.reading, Family.state.reading, Family.page.reading,
      shortFamily] := by
  have text : textFamily = Family.text.reading := by
    simp only [textFamily, comparison_eq, Family.reading, Family.statement, Family.heading,
      subject_of_one (f := .text) rfl, bind_assoc]
  have value : attributeFamily = Family.value.reading := by
    simp only [attributeFamily, comparison_eq, Family.reading, Family.statement, Family.heading,
      subject_of_two (f := .value) rfl, bind_assoc]
    rfl
  have state : stateFamily = Family.state.reading := by
    simp only [stateFamily, stating, located, Family.reading, Family.statement, Family.heading,
      subject_of_one (f := .state) rfl, Family.predicate, Family.target, Family.clause,
      Family.saying, subjectWord, bind_assoc, pure_bind, Option.map_some]
    rfl
  have page : pageFamily = Family.page.reading := by
    simp only [pageFamily, comparing, Family.reading, Family.statement, Family.heading,
      subject_of_two (f := .page) rfl, Family.predicate, Family.target, Family.clause,
      Family.saying, bind_assoc, pure_bind, Option.map_map, Function.comp_def]
    rfl
  rw [families, text, value, state, page]

/-! ## Quoted texts -/

variable {cs rest : List Char}

theorem not_blank_of_isQuote {c : Char} (quote : isQuote c) : ¬ Text.isBlank c := by
  simp only [isQuote, Bool.or_eq_true, beq_iff_eq] at quote
  rcases quote with rfl | rfl <;> decide

/-- How a text without quotes is written between two of them. -/
inductive Quoted : List Char → String → Prop
  | intro {q q' : Char} {e : List Char} (ne : e ≠ []) (opens : isQuote q) (closes : isQuote q')
      (free : ∀ c ∈ e, ¬ isQuote c) : Quoted (q :: (e ++ [q'])) (String.ofList e)

theorem takeWhile_dropWhile_of_stop {α : Type} {p : α → Bool} {xs : List α} {y : α}
    (pass : ∀ x ∈ xs, p x) (stop : ¬ p y) (ys : List α) :
    (xs ++ y :: ys).takeWhile p = xs ∧ (xs ++ y :: ys).dropWhile p = y :: ys := by
  rw [List.takeWhile_append_of_pos pass, List.dropWhile_append_of_pos pass,
    List.takeWhile_cons_of_neg stop, List.dropWhile_cons_of_neg stop, List.append_nil]
  exact ⟨rfl, rfl⟩

theorem mem_quotedText {text : String} :
    (text, rest) ∈ quotedText cs ↔ ∃ p, cs = p ++ rest ∧ Quoted p text := by
  constructor
  · intro read
    unfold quotedText at read
    split at read
    · exact absurd read List.not_mem_nil
    · next q cs =>
        split at read
        · next opens =>
            dsimp only at read
            split at read
            · next q' _ stop =>
                split at read
                · exact absurd read List.not_mem_nil
                · next ne =>
                    cases List.mem_singleton.mp read
                    have whole := List.takeWhile_append_dropWhile (p := (!isQuote ·)) (l := cs)
                    have closes := List.head?_dropWhile_not (!isQuote ·) cs
                    rw [stop] at whole closes
                    refine ⟨q :: (cs.takeWhile (!isQuote ·) ++ [q']), ?_,
                      .intro (by simpa using ne) opens (by simpa using closes) fun c there => ?_⟩
                    · rw [List.cons_append, List.append_assoc]
                      exact congrArg (q :: ·) whole.symm
                    · simpa using List.all_eq_true.mp List.all_takeWhile c there
            · exact absurd read List.not_mem_nil
        · exact absurd read List.not_mem_nil
  · rintro ⟨_, rfl, ⟨ne, opens, closes, free⟩⟩
    rename_i q q' e
    have pass : ∀ c ∈ e, (!isQuote c) = true := fun c there => by simpa using free c there
    obtain ⟨taken, left⟩ := takeWhile_dropWhile_of_stop pass
      (show ¬ (!isQuote q') = true by simpa using closes) rest
    have eq : q :: (e ++ [q']) ++ rest = q :: (e ++ q' :: rest) := by simp
    rw [eq, quotedText, if_pos opens]
    dsimp only
    rw [taken, left]
    simp [ne]

theorem regular_quotedText : Regular quotedText := by
  intro text cs rest
  simp only [mem_quotedText, List.append_nil, exists_eq_left']

theorem length_quotedText_le (cs : List Char) : (quotedText cs).length ≤ 1 := by
  unfold quotedText
  split
  · exact Nat.zero_le 1
  · dsimp only
    split
    · split
      · split <;> simp
      · exact Nat.zero_le 1
    · exact Nat.zero_le 1

theorem sure_quotedText : Sure quotedText := by
  intro cs x hx y hy
  have short := length_quotedText_le cs
  cases found : quotedText cs with
  | nil => exact absurd (found ▸ hx) List.not_mem_nil
  | cons z zs =>
      rw [found] at hx hy short
      have none : zs = [] := List.eq_nil_of_length_eq_zero (by simpa using short)
      subst none
      rw [List.mem_singleton.mp hx, List.mem_singleton.mp hy]

theorem solid_quotedText : Solid quotedText := by
  intro c cs blank
  exact if_neg fun quote => not_blank_of_isQuote quote blank

/-! ## Operators and states -/

/-- The operators that compare. -/
def comparisons : List Operator := [.equals, .contains, .startsWith, .endsWith]

def phrase : Operator → Reading (List Char)
  | .startsWith => twoWords "starts" "with"
  | .endsWith => twoWords "ends" "with"
  | op => word op.word

/-- The first word of a comparison. -/
def firstWord : Operator → String
  | .startsWith => "starts"
  | .endsWith => "ends"
  | op => op.word

theorem operatorPhrase_eq : operatorPhrase = choice phrase comparisons := by
  simp only [choice, comparisons, List.foldr, orElse_nothing]
  rfl

theorem regular_twoWords (first second : String) : Regular (twoWords first second) :=
  (regular_word _).bind fun _ => regular_someBlanks.bind fun _ =>
    (regular_word _).bind fun _ => .pure _

theorem sure_twoWords (first : String) {second : String} (plain : PlainWords [second]) :
    Sure (twoWords first second) :=
  (sure_word _).bind fun _ => .spaced (fun _ => (sure_word _).bind fun _ => .pure _)
    fun _ => ((begins_word second).bind _).solid plain

theorem regular_phrase (op : Operator) : Regular (phrase op) := by
  cases op with
  | startsWith | endsWith => exact regular_twoWords _ _
  | equals | contains | is => exact regular_word _

theorem sure_phrase (op : Operator) : Sure (phrase op) := by
  cases op with
  | startsWith | endsWith => exact sure_twoWords _ (by decide)
  | equals | contains | is => exact sure_word _

theorem begins_phrase (op : Operator) : Begins [firstWord op] (phrase op) := by
  cases op with
  | startsWith | endsWith => exact (begins_word _).bind _
  | equals | contains | is => exact begins_word _

theorem regular_operatorPhrase : Regular operatorPhrase :=
  operatorPhrase_eq ▸ .choice regular_phrase comparisons

theorem sure_operatorPhrase : Sure operatorPhrase := by
  rw [operatorPhrase_eq]
  refine .choice sure_phrase fun cs op mem op' mem' x read y read' => ?_
  obtain ⟨w, first, _, found⟩ := begins_phrase op cs x read
  obtain ⟨w', first', _, found'⟩ := begins_phrase op' cs y read'
  rw [List.mem_singleton.mp first] at found
  rw [List.mem_singleton.mp first'] at found'
  exact word_unique firstWord (by decide) (by decide) mem mem'
    found found'

theorem begins_operatorPhrase : Begins (comparisons.map firstWord) operatorPhrase := by
  rw [operatorPhrase_eq]
  exact .choice firstWord begins_phrase comparisons

theorem stateWord_eq : stateWord = choice (fun s : ElementState => word s.word) ElementState.all :=
  rfl

theorem regular_stateWord : Regular stateWord := .choice (fun _ => regular_word _) _

theorem sure_stateWord : Sure stateWord :=
  .choice (fun _ => sure_word _) fun _ _ mem _ mem' _ read _ read' =>
    word_unique ElementState.word (by decide) (by decide) mem mem' read read'

theorem begins_stateWord : Begins (ElementState.all.map ElementState.word) stateWord :=
  .choice ElementState.word (fun s => begins_word s.word) ElementState.all

/-! ## Headings -/

theorem optional_bind {α β : Type} (r : Reading α) (f : Option α → Reading β) :
    optional r >>= f = orElse (r >>= fun a => f (some a)) (f none) := by
  funext cs
  change ((some <$> r) cs ++ [(none, cs)]).flatMap _ = (r cs).flatMap _ ++ f none cs
  rw [← bind_pure_comp, List.flatMap_append]
  change ((r cs).flatMap _).flatMap _ ++ _ = _
  rw [List.flatMap_assoc]
  simp [pure]

theorem opening_bind {α : Type} (r : Reading α) : (opening >>= fun _ => r) =
    word "verify" >>= fun _ => someBlanks >>= fun _ =>
      optional (word "that" >>= fun _ => someBlanks) >>= fun _ =>
        optional (word "the" >>= fun _ => someBlanks) >>= fun _ => r := by
  simp only [opening, bind_assoc, pure_bind]

/-- A word that may be left out, before a phrase that starts otherwise. -/
def leftOut (w : String) (r : Reading α) : Reading α :=
  optional (word w >>= fun _ => someBlanks) >>= fun _ => r

theorem sure_leftOut {α : Type} {w : String} {ws : List String} {r : Reading α} (sure : Sure r)
    (begins : Begins ws r) (plain : PlainWords (w :: ws)) (clash : Clash [w] ws) :
    Sure (leftOut w r) := by
  obtain ⟨first, others⟩ := List.forall_mem_cons.mp plain
  have alone : PlainWords [w] := List.forall_mem_singleton.mpr first
  rw [leftOut, optional_bind, bind_assoc]
  refine .orElse ((sure_word w).bind fun _ => .spaced (fun _ => sure) fun _ => begins.solid others)
    sure fun cs x read y read' => ?_
  exact ((begins_word w).bind _).apart begins alone others clash read read'

theorem begins_leftOut {α : Type} {w : String} {ws : List String} {r : Reading α}
    (begins : Begins ws r) : Begins (w :: ws) (leftOut w r) := by
  rw [leftOut, optional_bind, bind_assoc]
  exact ((begins_word w).bind _).orElse begins

end BrowserScript.Script.VerifyStatement
