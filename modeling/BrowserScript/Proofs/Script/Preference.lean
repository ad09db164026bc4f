import BrowserScript.Proofs.Script.Phrase

/-!
Which reading of a statement comes first. Heading and clause of a statement are read in at most one
way, so the target decides: the preferred reading has the shortest one from which the clause can be
read.
-/

namespace BrowserScript.Script.VerifyStatement

open Reading

variable {α : Type} {f g : Family} {s s' : Subject} {cs rest : List Char}

/-! ## Headings -/

theorem begins_subjectWord (s : Subject) : Begins [s.word] (subjectWord s) :=
  (begins_word s.word).bind _

/-- The subjects that statements have. -/
def named : List Subject := [.text, .value, .placeholder, .state, .title, .url]

def headings : Reading Subject := do
  opening
  choice subjectWord named

theorem headings_eq : headings = word "verify" >>= fun _ => someBlanks >>= fun _ =>
    leftOut "that" (leftOut "the" (choice subjectWord named)) := opening_bind _

theorem sure_headings : Sure headings := by
  have words : Begins (named.map Subject.word) (choice subjectWord named) :=
    .choice Subject.word begins_subjectWord named
  have sure : Sure (choice subjectWord named) := by
    refine .choice (fun s => (sure_word _).bind fun _ => .pure _) ?_
    rintro cs s mem s' mem' ⟨t, rest⟩ read ⟨t', rest'⟩ read'
    obtain ⟨_, _, read, -⟩ := mem_bind.mp read
    obtain ⟨_, _, read', -⟩ := mem_bind.mp read'
    exact word_unique Subject.word (by decide) (by decide) mem mem' read read'
  have the : Begins _ (leftOut "the" (choice subjectWord named)) := begins_leftOut words
  have that : Begins _ (leftOut "that" (leftOut "the" (choice subjectWord named))) :=
    begins_leftOut the
  rw [headings_eq]
  exact (sure_word _).bind fun _ => .spaced
    (fun _ => sure_leftOut (sure_leftOut sure words (by decide) (by decide)) the (by decide)
      (by decide))
    fun _ => that.solid (by decide)

theorem mem_named_of_subjects : s ∈ f.subjects → s ∈ named := by
  cases f <;> cases s <;> decide

theorem mem_heading (read : (s, rest) ∈ f.heading cs) :
    (s, rest) ∈ headings cs ∧ s ∈ f.subjects := by
  obtain ⟨a, mid, opened, read⟩ := mem_bind.mp read
  obtain ⟨t, mem, read⟩ := mem_choice.mp read
  have same : s = t := by
    obtain ⟨_, _, -, read⟩ := mem_bind.mp read
    exact (mem_pure.mp read).1
  subst same
  exact ⟨mem_bind.mpr ⟨a, mid, opened, mem_choice.mpr ⟨s, mem_named_of_subjects mem, read⟩⟩, mem⟩

theorem sure_heading (f : Family) : Sure f.heading :=
  fun cs _ read _ read' => sure_headings cs _ (mem_heading read).1 _ (mem_heading read').1

theorem heading_unique {rest' : List Char} (read : (s, rest) ∈ f.heading cs)
    (read' : (s', rest') ∈ g.heading cs) : f = g := by
  obtain ⟨whole, mem⟩ := mem_heading read
  obtain ⟨whole', mem'⟩ := mem_heading read'
  cases sure_headings cs _ whole _ whole'
  revert mem mem'
  cases f <;> cases g <;> cases s <;> decide

theorem regular_heading (f : Family) : Regular f.heading := by
  refine Regular.bind ?_ fun _ => .choice (fun s => (regular_word _).bind fun _ => .pure _) _
  have skipped (w : String) : Regular (optional (word w >>= fun _ => someBlanks)) :=
    ((regular_word w).bind fun _ => regular_someBlanks).optional
  exact (regular_word _).bind fun _ => regular_someBlanks.bind fun _ =>
    (skipped "that").bind fun _ => (skipped "the").bind fun _ => .pure ()

/-! ## Clauses -/

/-- The words that what is said may start with. -/
def Family.verbs : Family → List String
  | .state => ["is"]
  | _ => comparisons.map firstWord

theorem begins_saying (f : Family) : Begins f.verbs f.saying := by
  cases f with
  | state => exact (begins_word "is").bind _
  | text | value | page => exact begins_operatorPhrase.bind _

theorem sure_saying (f : Family) : Sure f.saying := by
  cases f with
  | state =>
      exact (sure_word _).bind fun _ => .spaced (fun _ => sure_stateWord.bind fun _ => .pure _)
        fun _ => (begins_stateWord.bind _).solid (by decide)
  | text | value | page =>
      exact sure_operatorPhrase.bind fun _ => .spaced
        (fun _ => sure_quotedText.bind fun _ => .pure _) fun _ => solid_quotedText.bind _

theorem regular_saying (f : Family) : Regular f.saying := by
  cases f with
  | state =>
      exact (regular_word _).bind fun _ => regular_someBlanks.bind fun _ =>
        regular_stateWord.bind fun _ => .pure _
  | text | value | page =>
      exact regular_operatorPhrase.bind fun _ => regular_someBlanks.bind fun _ =>
        regular_quotedText.bind fun _ => .pure _

theorem plain_verbs (f : Family) : PlainWords f.verbs := by
  cases f <;> decide

theorem solid_saying (f : Family) : Solid f.saying := (begins_saying f).solid (plain_verbs f)

theorem sure_clause (f : Family) : Sure f.clause :=
  .spaced (fun _ => sure_saying f) fun _ => solid_saying f

theorem regular_clause (f : Family) : Regular f.clause :=
  regular_someBlanks.bind fun _ => regular_saying f

/-! ## Predicates -/

/-- What a clause says of a subject. -/
def about (s : Subject) (target : Option String) (said : Option (Operator × String)) :
    Option VerifyStatement :=
  said.map fun (op, expected) => ⟨s, op, expected, none, target⟩

theorem no_target_of_clause {said : Option (Operator × String)}
    (read : (said, rest) ∈ f.clause cs) : ofTarget cs = [] := by
  rw [List.eq_nil_iff_forall_not_mem]
  rintro ⟨span, rest'⟩ aimed
  obtain ⟨bs, mid, blanks, said⟩ := mem_bind.mp read
  obtain ⟨bs', mid', blanks', aim⟩ := mem_bind.mp aimed
  obtain ⟨rfl, gap⟩ := mem_someBlanks.mp blanks
  obtain ⟨same, gap'⟩ := mem_someBlanks.mp blanks'
  have preposition : Begins ["of"] (word "of" >>= fun _ => someBlanks >>= fun _ => fewest) :=
    (begins_word "of").bind _
  obtain ⟨-, rfl⟩ := gap_unique gap gap' same ((solid_saying f).unblanked said)
    ((preposition.solid (by decide)).unblanked aim)
  refine preposition.apart (begins_saying f) (by decide) (plain_verbs f) ?_ aim said
  cases f <;> decide

theorem target_eq (aims : f ≠ .page) : f.target = optional ofTarget := by
  cases f with
  | page => exact absurd rfl aims
  | text | value | state => rfl

/-- What follows a subject without a target. -/
theorem predicate_of_clause {said : Option (Operator × String)}
    (read : (said, rest) ∈ f.clause cs) :
    (f.predicate s cs).head? = some (about s none said, rest) := by
  have direct : ((f.clause >>= fun said => pure (about s none said)) cs).head? =
      some (about s none said, rest) :=
    (head?_bind_of_sure (sure_clause f) read).trans rfl
  by_cases aims : f = .page
  · subst aims
    rw [Family.predicate, Family.target, pure_bind]
    exact direct
  · rw [Family.predicate, target_eq aims, optional_bind, head?_orElse_of_none]
    · exact direct
    · change (ofTarget cs).flatMap _ = []
      rw [no_target_of_clause read]
      rfl

theorem spanText_of_append {t u : List Char} (ne : t ≠ []) :
    spanText (some ⟨t ++ u, t.length⟩) = some (String.ofList t) := by
  have long : t.length ≠ 0 := fun none => ne (List.eq_nil_of_length_eq_zero none)
  simp [spanText, Span.text?, Span.chars, long]

/-- What follows a subject with a target: no shorter target leaves a clause. -/
theorem predicate_of_target {said : Option (Operator × String)} {o t u bs bs' : List Char}
    (aims : f ≠ .page) (gap : Gap bs) (spelled : o.map plainLetter = "of".toList) (gap' : Gap bs')
    (ne : t ≠ []) (begins : Unblanked t) (read : (said, rest) ∈ f.clause u)
    (before : ∀ d e, d ≠ [] → e ≠ [] → t = d ++ e → f.clause (e ++ u) = []) :
    (f.predicate s (bs ++ (o ++ (bs' ++ (t ++ u))))).head? =
      some (about s (some (String.ofList t)) said, rest) := by
  have solid : Unblanked (t ++ u) := by
    cases t with
    | nil => exact absurd rfl ne
    | cons c t => exact unblanked_cons.mpr (unblanked_cons.mp begins)
  have preposition : (o, bs' ++ (t ++ u)) ∈ word "of" (o ++ (bs' ++ (t ++ u))) :=
    (mem_word (by decide)).mpr ⟨rfl, spelled⟩
  have start : Unblanked (o ++ (bs' ++ (t ++ u))) :=
    ((begins_word "of").solid (by decide)).unblanked preposition
  have clause : ((f.clause >>= fun said => pure (about s (some (String.ofList t)) said)) u).head? =
      some (about s (some (String.ofList t)) said, rest) :=
    (head?_bind_of_sure (sure_clause f) read).trans rfl
  rw [Family.predicate, target_eq aims, optional_bind]
  refine head?_orElse_of_head ?_
  simp only [ofTarget, bind_assoc]
  refine head?_bind_of_head (head?_someBlanks gap start) ?_
  refine head?_bind_of_head (head?_of_sure (sure_word _) preposition) ?_
  refine head?_bind_of_head (head?_someBlanks gap' solid) ?_
  refine head?_fewest ne ?_ fun d e first second split => ?_
  · rw [spanText_of_append ne]
    exact clause
  · change (f.clause (e ++ u)).flatMap _ = []
    rw [before d e first second split]
    rfl

/-! ## Locators -/

theorem located_plain {v : VerifyStatement} {bs : List Char} (blank : ∀ c ∈ bs, Text.isBlank c)
    (begins : Unblanked cs) (none : inLocator cs = []) :
    (located (some v) (bs ++ cs)).head? = some (some { v with locator := .none }, cs) := by
  refine head?_bind_of_head (head?_blanks blank begins) ?_
  rw [optional_bind, head?_orElse_of_none]
  · rfl
  · change (inLocator cs).flatMap _ = []
    rw [none]
    rfl

theorem located_at {v : VerifyStatement} {bs : List Char} {span : Span}
    (blank : ∀ c ∈ bs, Text.isBlank c) (begins : Unblanked cs)
    (read : (inLocator cs).head? = some (span, rest)) :
    (located (some v) (bs ++ cs)).head? = some (some { v with locator := span.text? }, rest) := by
  refine head?_bind_of_head (head?_blanks blank begins) ?_
  rw [optional_bind]
  exact head?_orElse_of_head (head?_bind_of_head read rfl)

end BrowserScript.Script.VerifyStatement
