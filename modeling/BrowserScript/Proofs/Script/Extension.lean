import BrowserScript.Proofs.Script.Clause

/-!
A statement at the head of a line that goes on. What can be read of it can be read whatever
follows; and no other reading of the target comes before, since a clause that started earlier would
end before the line goes on.
-/

namespace BrowserScript.Script.VerifyStatement

open Reading

variable {f : Family} {s : Subject} {cs rest t u : List Char} {said : Option (Operator × String)}

/-! ## Clauses that start earlier -/

theorem clause_of_blanks {e : List Char} (blank : ∀ c ∈ e, Text.isBlank c)
    (read : (said, rest) ∈ f.clause u) : (said, rest) ∈ f.clause (e ++ u) := by
  obtain ⟨bs, mid, blanks, meant⟩ := mem_bind.mp read
  obtain ⟨rfl, gap⟩ := mem_someBlanks.mp blanks
  refine mem_bind.mpr ⟨e ++ bs, mid, mem_someBlanks.mpr ⟨(List.append_assoc ..).symm, ?_⟩, meant⟩
  refine ⟨List.append_ne_nil_of_right_ne_nil e gap.ne_nil, ?_⟩
  exact List.forall_mem_append.mpr ⟨blank, gap.blank⟩

theorem countP_of_free (free : ∀ c ∈ cs, ¬ isQuote c) : cs.countP isQuote = 0 :=
  List.countP_eq_zero.mpr free

/-- A comparison ends with its second quote. -/
theorem countP_comparing (compares : f ≠ .state) (read : (said, []) ∈ f.clause cs) :
    cs.countP isQuote = 2 ∧ cs.dropLast.countP isQuote = 1 := by
  obtain ⟨bs, o, bs', p, e, op, rfl, gap, phrased, gap', quoted, -⟩ := comparing_split compares read
  obtain ⟨ne, opens, closes, inner⟩ := quoted
  rename_i q q' e
  have whole : bs ++ (o ++ (bs' ++ (q :: (e ++ [q']) ++ []))) =
      bs ++ (o ++ (bs' ++ q :: e)) ++ [q'] := by simp
  have start : (bs ++ (o ++ (bs' ++ q :: e))).countP isQuote = 1 := by
    simp [List.countP_append, countP_of_free (free_of_gap gap), countP_of_free phrased.free,
      countP_of_free (free_of_gap gap'), countP_of_free inner, opens]
  rw [whole, List.dropLast_concat, List.countP_append, start]
  exact ⟨by simp [closes], rfl⟩

/-- A statement of a state is two words. -/
theorem words_stating (read : (said, []) ∈ Family.state.clause cs) :
    (Text.words cs).length = 2 := by
  obtain ⟨bs, i, bs', st, state, rfl, gap, spelled, gap', spelled', -⟩ := stating_split read
  have long : state.word.toList ≠ [] := by cases state <;> decide
  rw [List.append_nil, Text.words_blanks_append gap.blank,
    Text.words_append_blanks gap'.ne_nil gap'.blank, spelled.words (by decide) (by decide),
    spelled'.words (plain_word state) long]
  rfl

/-- What starts earlier than a clause and is a clause itself ends where that clause ends, or
before. -/
theorem clause_within {said' : Option (Operator × String)} {e x : List Char} {c : Char}
    (there : c ∈ e) (solid : ¬ Text.isBlank c) (read : (said, rest) ∈ f.clause u)
    (read' : (said', []) ∈ f.clause (e ++ u ++ x)) : x = [] := by
  obtain ⟨p, split, whole⟩ := (regular_clause f ..).mp read
  by_cases states : f = .state
  · subst states
    -- Either clause has two words, but the longer text has one more in front.
    have first : 1 ≤ (Text.words e).length :=
      List.length_pos_iff.mpr (Text.words_ne_nil there solid)
    obtain ⟨bs, mid, blanks, -⟩ := mem_bind.mp read
    obtain ⟨gapped, gap⟩ := mem_someBlanks.mp blanks
    have cut : Text.words (e ++ u) = Text.words e ++ Text.words u := by
      rw [gapped, Text.words_append_blanks gap.ne_nil gap.blank,
        Text.words_blanks_append gap.blank]
    have three := Text.length_words_append (e ++ u) x
    have two := Text.length_words_append p rest
    rw [words_stating whole, ← split] at two
    rw [words_stating read', cut, List.length_append] at three
    omega
  · -- Both quotes of the later clause would stand before the last quote of the earlier one.
    have two := (countP_comparing states whole).1
    have one := (countP_comparing states read').2
    refine Classical.byContradiction fun ne => ?_
    rw [List.dropLast_append_of_ne_nil ne] at one
    simp only [split, List.countP_append] at one
    omega

/-- A clause that starts earlier is there whatever follows. -/
theorem clause_stays {e : List Char} (read : (said, rest) ∈ f.clause u)
    (none : f.clause (e ++ u) = []) (t : List Char) : f.clause (e ++ (u ++ t)) = [] := by
  obtain ⟨c, there, solid⟩ : ∃ c ∈ e, ¬ Text.isBlank c := by
    refine Classical.byContradiction fun blank => ?_
    have blank : ∀ c ∈ e, Text.isBlank c := fun c there =>
      Classical.byContradiction fun solid => blank ⟨c, there, solid⟩
    exact List.ne_nil_of_mem (clause_of_blanks blank read) none
  rw [List.eq_nil_iff_forall_not_mem]
  rintro ⟨said', rest'⟩ read'
  obtain ⟨p, split, whole⟩ := (regular_clause f ..).mp read'
  rw [← List.append_assoc] at split
  rcases List.append_eq_append_iff.mp split with ⟨x, rfl, -⟩ | ⟨x, same, -⟩
  · have ends := clause_within there solid read whole
    subst ends
    rw [List.append_nil] at whole
    exact List.ne_nil_of_mem whole none
  · have within := (regular_clause f).extend whole x
    rw [← same] at within
    exact List.ne_nil_of_mem within none

/-! ## The shortest target -/

/-- Of all beginnings of a text that leave a clause, one is the shortest. -/
theorem exists_shortest (ne : t ≠ []) (read : (said, rest) ∈ f.clause u) :
    ∃ d v, d ≠ [] ∧ d <+: t ∧ t ++ u = d ++ v ∧ (∃ x, x ∈ f.clause v) ∧
      ∀ d' e, d' ≠ [] → e ≠ [] → d = d' ++ e → f.clause (e ++ v) = [] := by
  induction h : t.length using Nat.strongRecOn generalizing t u said rest with
  | ind n ih =>
      by_cases shorter : ∃ d e, d ≠ [] ∧ e ≠ [] ∧ t = d ++ e ∧ f.clause (e ++ u) ≠ []
      · obtain ⟨d, e, first, second, rfl, leaves⟩ := shorter
        obtain ⟨⟨said', rest'⟩, read'⟩ := List.exists_mem_of_ne_nil _ leaves
        have less : d.length < n := by
          have := List.length_pos_iff.mpr second
          rw [← h, List.length_append]
          omega
        obtain ⟨d', v, ne', start, split, rest⟩ := ih d.length less first read' rfl
        exact ⟨d', v, ne', start.trans (List.prefix_append d e),
          (List.append_assoc ..).trans split, rest⟩
      · refine ⟨t, u, ne, List.prefix_refl t, rfl, ⟨_, read⟩, fun d e first second split => ?_⟩
        exact Classical.byContradiction fun leaves =>
          shorter ⟨d, e, first, second, split, leaves⟩

/-! ## Statements in a longer line -/

/-- The target, if one is given, does not begin with a blank. -/
def Aimed (v : VerifyStatement) : Prop := ∀ T, v.target = some T → Unblanked T.toList

theorem ofTarget_split {span : Span} (read : (span, rest) ∈ ofTarget cs) :
    ∃ bs o bs' t, cs = bs ++ (o ++ (bs' ++ (t ++ rest))) ∧ Gap bs ∧
      o.map plainLetter = "of".toList ∧ Gap bs' ∧ t ≠ [] ∧ span = ⟨t ++ rest, t.length⟩ := by
  obtain ⟨bs, _, blanks, read⟩ := mem_bind.mp read
  obtain ⟨o, _, preposition, read⟩ := mem_bind.mp read
  obtain ⟨bs', mid, blanks', stretch⟩ := mem_bind.mp read
  obtain ⟨rfl, gap⟩ := mem_someBlanks.mp blanks
  obtain ⟨rfl, spelled⟩ := (mem_word (by decide)).mp preposition
  obtain ⟨rfl, gap'⟩ := mem_someBlanks.mp blanks'
  obtain ⟨t, ne, rfl, rfl⟩ := mem_fewest.mp stretch
  exact ⟨bs, o, bs', t, rfl, gap, spelled, gap', ne, rfl⟩

theorem about_eq_some {target : Option String} {v : VerifyStatement}
    (meant : about s target said = some v) : v.target = target := by
  obtain ⟨_, -, rfl⟩ := Option.map_eq_some_iff.mp meant
  rfl

/-- What follows the subject is read as before when the line goes on. -/
theorem predicate_extends {v : VerifyStatement} (aimed : Aimed v)
    (first : (f.predicate s cs).head? = some (some v, rest)) (t : List Char) :
    (f.predicate s (cs ++ t)).head? = some (some v, rest ++ t) := by
  obtain ⟨target, mid, aim, read⟩ := mem_bind.mp (List.mem_of_head? first)
  obtain ⟨said, _, clause, read⟩ := mem_bind.mp read
  obtain ⟨meant, rfl⟩ := mem_pure.mp read
  have meant : about s (spanText target) said = some v := meant.symm
  by_cases aims : f = .page
  · subst aims
    obtain ⟨rfl, rfl⟩ := mem_pure.mp aim
    rw [← meant]
    exact predicate_of_clause ((regular_clause _).extend clause t)
  · rw [target_eq aims] at aim
    rcases mem_optional.mp aim with ⟨span, rfl, taken⟩ | ⟨rfl, rfl⟩
    · -- That `T` is read first says that it is the shortest target; rather than show this, take the
      -- shortest and see that it is what was read.
      obtain ⟨bs, o, bs', T, rfl, gap, spelled, gap', ne, rfl⟩ := ofTarget_split taken
      have begins : Unblanked T := by
        simpa using aimed _ ((about_eq_some meant).trans (spanText_of_append ne))
      obtain ⟨d, u, ne', start, split, ⟨⟨said', rest'⟩, clause'⟩, before⟩ :=
        exists_shortest ne clause
      have begins' : Unblanked d := by
        cases d with
        | nil => exact absurd rfl ne'
        | cons c d =>
            obtain ⟨T', rfl⟩ := start
            exact unblanked_cons.mpr (unblanked_cons.mp begins)
      rw [split] at first ⊢
      have found := predicate_of_target (s := s) aims gap spelled gap' ne' begins' clause' before
      obtain ⟨meant', rfl⟩ := Prod.mk.inj (Option.some.inj (found.symm.trans first))
      rw [← meant']
      simp only [List.append_assoc]
      exact predicate_of_target aims gap spelled gap' ne' begins'
        ((regular_clause _).extend clause' t) fun d' e first second cut =>
          clause_stays clause' (before d' e first second cut) t
    · rw [← meant]
      exact predicate_of_clause ((regular_clause _).extend clause t)

theorem statement_extends {v : VerifyStatement} (aimed : Aimed v)
    (first : (f.statement cs).head? = some (some v, rest)) (t : List Char) :
    (f.statement (cs ++ t)).head? = some (some v, rest ++ t) := by
  obtain ⟨s, mid, heading, -⟩ := mem_bind.mp (List.mem_of_head? first)
  rw [Family.statement, head?_bind_of_sure (sure_heading f) heading] at first
  rw [Family.statement,
    head?_bind_of_sure (sure_heading f) ((regular_heading f).extend heading t)]
  exact predicate_extends aimed first t

end BrowserScript.Script.VerifyStatement
