import BrowserScript.Proofs.XPath.Written

/-!
Expressions read where their literals are written. Nothing that is read depends on a literal being
one token: each reader finds the same there, if what it reads in brackets does. Main statement:
`expr_follows`.
-/

namespace BrowserScript.XPath

open Text (loop loop_stop loop_next)

variable {t : Token} {ts rest : List Token}

/-- What one reader finds, the other finds where the literals are written. -/
def Follows {α : Type} (read read' : Reader α) (write : α → α) : Prop :=
  ∀ ts a rest, read ts = some (a, rest) →
    rest <:+ ts ∧ read' (written ts) = some (write a, written rest)

namespace Follows

variable {α β γ : Type} {read read' : Reader α} {write : α → α} {write₂ : β → β}

/-- One reader after the other; what the first one finds decides what is read next. -/
theorem bind {next next' : α × List Token → Option (β × List Token)}
    (first : Follows read read' write)
    (second : ∀ a, Follows (fun ts => next (a, ts)) (fun ts => next' (write a, ts)) write₂) :
    Follows (fun ts => (read ts).bind next) (fun ts => (read' ts).bind next') write₂ := by
  intro ts b rest found
  obtain ⟨⟨a, between⟩, start, found⟩ := Option.bind_eq_some_iff.mp found
  obtain ⟨split, start'⟩ := first ts a between start
  obtain ⟨split₂, found'⟩ := second a between b rest found
  refine ⟨split₂.trans split, ?_⟩
  dsimp only
  rw [start']
  exact found'

theorem pure {a a' : α} (same : write a = a') :
    Follows (fun ts => some (a, ts)) (fun ts => some (a', ts)) write := by
  intro ts b rest found
  cases found
  exact ⟨List.suffix_rfl, congrArg (fun a => some (a, written ts)) same.symm⟩

theorem map {f f' : α × List Token → β × List Token} (first : Follows read read' write)
    (same : ∀ a ts, (f (a, ts)).2 = ts ∧
      f' (write a, written ts) = (write₂ (f (a, ts)).1, written ts)) :
    Follows (fun ts => (read ts).map f) (fun ts => (read' ts).map f') write₂ := by
  intro ts b rest found
  obtain ⟨⟨a, between⟩, start, found⟩ := Option.map_eq_some_iff.mp found
  obtain ⟨split, start'⟩ := first ts a between start
  obtain ⟨left, written⟩ := same a between
  rw [found] at left written
  obtain rfl : rest = between := left
  refine ⟨split, ?_⟩
  dsimp only
  rw [start', Option.map_some, written]

theorem behind {a : α} (follows : Follows read read' write) (found : read ts = some (a, rest)) :
    rest <:+ t :: ts ∧ read' (written ts) = some (write a, written rest) :=
  (follows ts a rest found).imp_left (·.trans (List.suffix_cons t ts))

/-- Rounds that go on after the same tokens as rounds whose literals are written. -/
theorem loop {round round' : α → List Token → Option (Option (α × List Token))} (write : α → α)
    (next : ∀ a ts b rest, round a ts = some (some (b, rest)) →
      rest <:+ ts ∧ round' (write a) (written ts) = some (some (write b, written rest)))
    (stop : ∀ a ts, round a ts = some none → round' (write a) (written ts) = some none) (a : α) :
    Follows (Text.loop round a) (Text.loop round' (write a)) write := by
  intro ts b rest found
  induction a, ts using Text.loop.induct round with
  | case1 a ts failed =>
      rw [Text.loop, failed] at found
      cases found
  | case2 a ts ends =>
      rw [loop_stop ends] at found
      cases found
      exact ⟨List.suffix_rfl, loop_stop (stop b rest ends)⟩
  | case3 a ts a₂ ts₂ goes less ih =>
      obtain ⟨split, goes'⟩ := next a ts a₂ ts₂ goes
      rw [loop_next goes less] at found
      obtain ⟨further, found'⟩ := ih found
      exact ⟨further.trans split,
        (loop_next goes' (length_written_lt split less)).trans found'⟩
  | case4 a ts a₂ ts₂ goes less =>
      rw [Text.loop, goes] at found
      simp [less] at found

end Follows

/-! ## Rounds -/

section Rounds

variable {α β : Type} {read read' : Reader α} {write : α → α} {write₂ : β → β}
  {op : Token → Option (β → α → β)}
  {round round' : β → List Token → Option (Option (β × List Token))}

/-- Tokens that no literal begins with join as well where the literals are written. -/
theorem Follows.rounds (follows : Follows read read' write) (joining : Joining read op round)
    (joining' : Joining read' op round')
    (joins : ∀ t join, op t = some join → t.beginsLiteral = false ∧
      ∀ b a, write₂ (join b a) = join (write₂ b) (write a)) (b : β) :
    Follows (Text.loop round b) (Text.loop round' (write₂ b)) write₂ := by
  refine Follows.loop write₂ ?next ?stop b
  case next =>
    intro b ts b₂ rest goes
    by_cases joined : ∃ t ∈ ts.head?, ∃ join, op t = some join
    · obtain ⟨t, head, join, joined⟩ := joined
      obtain ⟨ts, rfl⟩ := List.head?_eq_some_iff.mp head
      obtain ⟨own, writes⟩ := joins t join joined
      rw [joining.next b t ts join joined] at goes
      obtain ⟨⟨a, after⟩, found, same⟩ := Option.map_eq_some_iff.mp goes
      cases same
      obtain ⟨split, found'⟩ := follows ts a after found
      refine ⟨split.trans (List.suffix_cons t ts), ?_⟩
      rw [written_cons (ne_literal own), joining'.next _ t _ join joined, found', writes]
      rfl
    · push Not at joined
      rw [joining.stop b ts fun t head => Option.eq_none_iff_forall_ne_some.mpr (joined t head)]
        at goes
      cases goes
  case stop =>
    intro b ts ends
    refine joining'.stop _ _ fun t head => ?_
    cases joined : op t with
    | none => rfl
    | some join =>
        obtain ⟨us, head⟩ := List.head?_eq_some_iff.mp head
        obtain ⟨ts, rfl, -⟩ := begins_of_written (joins t join joined).1 head
        rw [joining.next b t ts join joined] at ends
        obtain ⟨found, -, same⟩ := Option.map_eq_some_iff.mp ends
        cases same

end Rounds

/-- What a comma adds to the arguments, or a pipe to the parts of a union. -/
def comma? : Token → Option (List Expr → Expr → List Expr)
  | .comma => some fun found e => found ++ [e]
  | _ => none

def union? : Token → Option (List Expr → Expr → List Expr)
  | .pipe => some fun found e => found ++ [e]
  | _ => none

/-! ## Levels -/

section Levels

variable {inner inner' : Reader Expr}

theorem follows_leftChain {op : Token → Option (Expr → Expr → Expr)}
    (follows : Follows inner inner' Expr.written)
    (joins : ∀ t join, op t = some join → t.beginsLiteral = false ∧
      ∀ a b, (join a b).written = join a.written b.written) :
    Follows (leftChain inner op) (leftChain inner' op) Expr.written := by
  obtain ⟨round, joining, all⟩ := leftChain_rounds inner op
  obtain ⟨round', joining', all'⟩ := leftChain_rounds inner' op
  rw [funext all, funext all']
  exact follows.bind fun first => follows.rounds joining joining' joins first

theorem union_joining (inner : Reader Expr) :
    ∃ round, Joining (path inner) union? round ∧
      ∀ ts, union inner ts = (path inner ts).bind fun first =>
        (loop round [first.1] first.2).bind fun parts =>
          some (if parts.1.length ≤ 1 then first.1 else .union parts.1, parts.2) := by
  refine ⟨?round, ⟨?next, ?stop⟩, ?all⟩
  case all =>
    intro ts
    rfl
  case next =>
    intro found t ts join joined
    unfold union? at joined
    split at joined <;> cases joined
    rfl
  case stop =>
    intro found ts ends
    dsimp only
    split
    · cases ends _ rfl
    · rfl

/-- What stands before the closing parenthesis. -/
def closing {α : Type} (a : α) : Reader α
  | .rightParen :: ts => some (a, ts)
  | _ => none

theorem arguments_joining (inner : Reader Expr) :
    ∃ round, Joining inner comma? round ∧
      ∀ ts, (∀ more, ts ≠ .rightParen :: more) → arguments inner ts =
        (inner ts).bind fun first => (loop round [first.1] first.2).bind fun found =>
          closing found.1 found.2 := by
  refine ⟨?round, ⟨?next, ?stop⟩, ?all⟩
  case all =>
    intro ts other
    unfold arguments
    split
    · exact absurd rfl (other _)
    · rfl
  case next =>
    intro found t ts join joined
    unfold comma? at joined
    split at joined <;> cases joined
    rfl
  case stop =>
    intro found ts ends
    dsimp only
    split
    · cases ends _ rfl
    · rfl

theorem follows_closing {α : Type} (write : α → α) (a : α) :
    Follows (closing a) (closing (write a)) write := by
  intro ts b rest read
  unfold closing at read
  split at read <;> cases read
  exact ⟨List.suffix_cons _ _, rfl⟩

theorem follows_axis : Follows axis axis id := by
  intro ts found rest read
  unfold axis at read
  split at read
  · cases read
    exact ⟨List.suffix_cons _ _, rfl⟩
  · next s ts =>
      obtain ⟨found, named, same⟩ := Option.map_eq_some_iff.mp read
      cases same
      refine ⟨(List.suffix_cons _ _).trans (List.suffix_cons _ _), ?_⟩
      rw [written_name, written_cons (ne_literal rfl), axis, named]
      rfl
  · next sign colons =>
      cases read
      refine ⟨List.suffix_rfl, ?_⟩
      unfold axis
      split
      · next same => exact absurd same (written_ne rfl sign _)
      · next s us same =>
          obtain ⟨ts, rfl⟩ := name_of_written rfl (by simp) same
          exact absurd rfl (colons s ts)
      · rfl

theorem follows_nodeTest : Follows nodeTest nodeTest id := by
  intro ts test rest read
  unfold nodeTest at read
  split at read
  case h_1 =>
    cases read
    exact ⟨List.suffix_cons _ _, rfl⟩
  case h_2 =>
    split at read <;> cases read
    exact ⟨(List.suffix_cons _ _).trans ((List.suffix_cons _ _).trans (List.suffix_cons _ _)), rfl⟩
  case h_3 =>
    split at read <;> cases read
    exact ⟨(List.suffix_cons _ _).trans ((List.suffix_cons _ _).trans (List.suffix_cons _ _)), rfl⟩
  case h_4 s ts text node =>
    cases read
    refine ⟨List.suffix_cons _ _, ?_⟩
    have named {word : String} {us : List Token}
        (other : ∀ more, rest = .leftParen :: more → s ≠ word)
        (same : Token.name s :: written rest = .name word :: .leftParen :: us) : False := by
      obtain ⟨own, same⟩ := List.cons.inj same
      obtain ⟨more, rfl, -⟩ := begins_of_written rfl same
      exact other more rfl (Token.name.inj own)
    rw [written_name]
    unfold nodeTest
    split
    · next same => cases same
    · next same => exact (named text same).elim
    · next same => exact (named node same).elim
    · next same =>
        cases same
        rfl
    · next other => exact absurd rfl (other _ _)
  case h_5 => cases read

theorem startsStep_name (other : ∀ more, ts ≠ .leftParen :: more) (s : String) :
    startsStep (.name s :: ts) := by
  cases ts with
  | nil => rfl
  | cons t ts => cases t <;> first | rfl | exact absurd rfl (other _)

theorem startsStep_written (ts : List Token) : startsStep (written ts) = startsStep ts := by
  cases ts with
  | nil => rfl
  | cons t ts =>
      cases t
      case literal s =>
        rw [written, Locator.literalTokens]
        split <;> rfl
      case name s =>
        by_cases call : ∃ more, ts = .leftParen :: more
        · obtain ⟨more, rfl⟩ := call
          rfl
        · have other := not_exists.mp call
          exact (startsStep_name (written_ne rfl other) s).trans (startsStep_name other s).symm
      all_goals rfl

section Follow

variable (follows : Follows inner inner' Expr.written)

include follows

theorem follows_predicates :
    Follows (predicates inner) (predicates inner') Expr.writtenAll := by
  refine Follows.loop Expr.writtenAll ?next ?stop []
  case next =>
    intro found ts more rest next
    split at next
    · next ts =>
        split at next
        · next e ts' read =>
            cases next
            obtain ⟨split, read'⟩ := follows ts e _ read
            refine ⟨(List.suffix_cons _ _).trans (split.trans (List.suffix_cons _ _)), ?_⟩
            simp only [written, read', writtenAll_eq, List.map_append, List.map_cons, List.map_nil]
        · cases next
    · cases next
  case stop =>
    intro found ts ends
    have other : ∀ rest, ts ≠ .leftBracket :: rest := by
      rintro rest rfl
      dsimp only at ends
      split at ends <;> cases ends
    have other := written_ne rfl other
    split
    · next same => exact absurd same (other _)
    · rfl

theorem follows_arguments : Follows (arguments inner) (arguments inner') Expr.writtenAll := by
  obtain ⟨round, joining, all⟩ := arguments_joining inner
  obtain ⟨round', joining', all'⟩ := arguments_joining inner'
  intro ts args rest read
  by_cases closed : ∃ more, ts = .rightParen :: more
  · obtain ⟨more, rfl⟩ := closed
    cases read
    exact ⟨List.suffix_cons _ _, rfl⟩
  · have other := not_exists.mp closed
    rw [all ts other] at read
    rw [all' _ (written_ne rfl other)]
    have joins : ∀ t join, comma? t = some join → t.beginsLiteral = false ∧
        ∀ found e, Expr.writtenAll (join found e) = join (Expr.writtenAll found) e.written := by
      intro t join joined
      unfold comma? at joined
      split at joined <;> cases joined
      exact ⟨rfl, fun found e => by simp [writtenAll_eq]⟩
    have each (first : Expr) := follows.rounds joining joining' joins [first]
    exact (follows.bind fun first => (each first).bind fun args =>
      follows_closing Expr.writtenAll args) ts args rest read


theorem follows_primary {deeper : Reader Expr} (same : inner' = disjunction deeper) :
    Follows (primary inner) (primary inner') Expr.written := by
  intro ts e rest read
  induction ts using primary.induct inner generalizing e with
  | case1 ts e' ts' enclosed =>
      rw [primary, enclosed] at read
      cases read
      obtain ⟨split, enclosed'⟩ := follows ts _ _ enclosed
      refine ⟨(List.suffix_cons _ _).trans (split.trans (List.suffix_cons _ _)), ?_⟩
      simp only [written, primary, enclosed']
  | case2 ts other =>
      rw [primary] at read
      split at read
      · next enclosed => exact absurd enclosed (other _ _)
      · cases read
  | case3 s ts =>
      cases read
      rw [written, same, Locator.primary_literal, Expr.written]
      exact ⟨List.suffix_cons _ _, rfl⟩
  | case4 f ts =>
      cases read
      exact ⟨List.suffix_cons _ _, rfl⟩
  | case5 ts ih =>
      rw [primary] at read
      obtain ⟨⟨a, after⟩, found, same⟩ := Option.map_eq_some_iff.mp read
      cases same
      obtain ⟨split, found'⟩ := ih a found
      refine ⟨split.trans (List.suffix_cons _ _), ?_⟩
      simp only [written, primary, found']
      rfl
  | case6 s ts =>
      rw [primary] at read
      obtain ⟨f, named, read⟩ := Option.bind_eq_some_iff.mp read
      obtain ⟨⟨args, after⟩, listed, read⟩ := Option.bind_eq_some_iff.mp read
      dsimp only at read
      split at read
      · next admitted =>
          cases read
          obtain ⟨split, listed'⟩ := follows_arguments follows ts args _ listed
          refine ⟨split.trans ((List.suffix_cons _ _).trans (List.suffix_cons _ _)), ?_⟩
          rw [written, written, primary, named, Option.bind_eq_bind, Option.bind_some, listed']
          · have count : f.admits (Expr.writtenAll args).length := by
              rwa [writtenAll_eq, List.length_map]
            exact if_pos count
          all_goals exact fun _ same => by cases same
      · cases read
  | case7 ts =>
      rw [primary] at read
      · cases read
      all_goals assumption

theorem follows_step : Follows (step inner) (step inner') Step.written := by
  have filtered (axis : Axis) (test : NodeTest) :
      Follows (fun ts => (predicates inner ts).map fun found => (.step axis test found.1, found.2))
        (fun ts => (predicates inner' ts).map fun found => (.step axis test found.1, found.2))
        Step.written :=
    (follows_predicates follows).map fun ps ts => ⟨rfl, rfl⟩
  have tested (axis : Axis) (test : NodeTest) : Follows
      (fun ts => (predicates inner ts).bind fun found => some (.step axis test found.1, found.2))
      (fun ts => (predicates inner' ts).bind fun found => some (.step axis test found.1, found.2))
      Step.written := by
    refine (follows_predicates follows).bind fun ps => ?_
    dsimp only
    exact Follows.pure rfl
  intro ts st rest read
  unfold step at read
  split at read
  · exact (filtered _ _).behind read
  · exact (filtered _ _).behind read
  · next dot twoDots =>
      unfold step
      split
      · next same => exact absurd same (written_ne rfl dot _)
      · next same => exact absurd same (written_ne rfl twoDots _)
      · exact (follows_axis.bind fun axis => follows_nodeTest.bind fun test => tested axis test)
          ts st rest read

theorem follows_steps : Follows (steps inner) (steps inner') Step.writtenAll := by
  have joins : ∀ t join, slashes? t = some join → t.beginsLiteral = false ∧
      ∀ found st, Step.writtenAll (join found st) = join (Step.writtenAll found) st.written := by
    intro t join joined
    unfold slashes? at joined
    split at joined <;> cases joined <;>
      exact ⟨rfl, fun found st => by
        simp [stepsWritten_eq, Step.anywhere, Step.written, Expr.writtenAll]⟩
  obtain ⟨round, joining, all⟩ := steps_joining inner
  obtain ⟨round', joining', all'⟩ := steps_joining inner'
  rw [funext all, funext all']
  exact (follows_step follows).bind fun first =>
    (follows_step follows).rounds joining joining' joins [first]

theorem follows_stepsAfter : Follows (stepsAfter inner) (stepsAfter inner') Step.writtenAll := by
  intro ts found rest read
  unfold stepsAfter at read
  split at read
  · exact (follows_steps follows).behind read
  · have anywhere : Follows
        (fun ts => (steps inner ts).map fun found => (.anywhere :: found.1, found.2))
        (fun ts => (steps inner' ts).map fun found => (.anywhere :: found.1, found.2))
        Step.writtenAll := (follows_steps follows).map fun found ts => ⟨rfl, rfl⟩
    exact anywhere.behind read
  · next slash slashes =>
      cases read
      exact ⟨List.suffix_rfl, stepsAfter_none (written_ne rfl slash) (written_ne rfl slashes)⟩

/-- What comes after a primary expression: its predicates are read, then perhaps further steps. -/
theorem follows_continued (e : Expr) (ps : List Expr) : Follows
    (fun ts => (stepsAfter inner ts).bind fun found =>
      some (if ps.isEmpty && found.1.isEmpty then e else .filter e ps found.1, found.2))
    (fun ts => (stepsAfter inner' ts).bind fun found =>
      some (if (Expr.writtenAll ps).isEmpty && found.1.isEmpty then e.written
        else .filter e.written (Expr.writtenAll ps) found.1, found.2)) Expr.written := by
  refine (follows_stepsAfter follows).bind fun found => ?_
  have whole : (if ps.isEmpty && found.isEmpty then e else Expr.filter e ps found).written =
      if (Expr.writtenAll ps).isEmpty && (Step.writtenAll found).isEmpty then e.written
        else .filter e.written (Expr.writtenAll ps) (Step.writtenAll found) := by
    rw [writtenAll_eq, stepsWritten_eq, List.isEmpty_map, List.isEmpty_map]
    split
    · rfl
    · rw [Expr.written, writtenAll_eq, stepsWritten_eq]
  exact Follows.pure whole

theorem follows_path {deeper : Reader Expr} (same : inner' = disjunction deeper) :
    Follows (path inner) (path inner') Expr.written := by
  have stepped (absolute : Bool) :
      Follows (fun ts => (steps inner ts).map fun found => (.path absolute found.1, found.2))
        (fun ts => (steps inner' ts).map fun found => (.path absolute found.1, found.2))
        Expr.written :=
    (follows_steps follows).map fun found ts => ⟨rfl, rfl⟩
  have anywhere : Follows
      (fun ts => (steps inner ts).map fun found => (.path true (.anywhere :: found.1), found.2))
      (fun ts => (steps inner' ts).map fun found => (.path true (.anywhere :: found.1), found.2))
      Expr.written :=
    (follows_steps follows).map fun found ts => ⟨rfl, rfl⟩
  intro ts e rest read
  unfold path at read
  split at read
  · next ts =>
      rw [← startsStep_written] at read
      split at read
      · next starts =>
          obtain ⟨split, read'⟩ := (stepped true).behind read
          refine ⟨split, ?_⟩
          rw [written_cons (ne_literal rfl), path, if_pos starts]
          exact read'
      · next stands =>
          cases read
          refine ⟨List.suffix_cons _ _, ?_⟩
          rw [written_cons (ne_literal rfl), path, if_neg stands]
          rfl
  · next ts =>
      obtain ⟨split, read'⟩ := anywhere.behind read
      exact ⟨split, read'⟩
  · next slash slashes =>
      rw [← startsStep_written] at read
      unfold path
      split
      · next same => exact absurd same (written_ne rfl slash _)
      · next same => exact absurd same (written_ne rfl slashes _)
      · split at read
        · next starts =>
            rw [if_pos starts]
            exact stepped false ts e rest read
        · next stands =>
            rw [if_neg stands]
            exact ((follows_primary follows same).bind fun e =>
              (follows_predicates follows).bind fun ps =>
                follows_continued follows e ps) ts e rest read

theorem follows_union {deeper : Reader Expr} (same : inner' = disjunction deeper) :
    Follows (union inner) (union inner') Expr.written := by
  have joins : ∀ t join, union? t = some join → t.beginsLiteral = false ∧
      ∀ found e, Expr.writtenAll (join found e) = join (Expr.writtenAll found) e.written := by
    intro t join joined
    unfold union? at joined
    split at joined <;> cases joined
    exact ⟨rfl, fun found e => by simp [writtenAll_eq]⟩
  have whole (first : Expr) (parts : List Expr) :
      (if parts.length ≤ 1 then first else Expr.union parts).written =
        if (Expr.writtenAll parts).length ≤ 1 then first.written
          else .union (Expr.writtenAll parts) := by
    rw [writtenAll_eq, List.length_map]
    split
    · rfl
    · rw [Expr.written, writtenAll_eq]
  obtain ⟨round, joining, all⟩ := union_joining inner
  obtain ⟨round', joining', all'⟩ := union_joining inner'
  rw [funext all, funext all']
  have each (first : Expr) :=
    (follows_path follows same).rounds joining joining' joins [first]
  refine (follows_path follows same).bind fun first => ?_
  dsimp only
  refine (each first).bind fun parts => ?_
  exact Follows.pure (whole first parts)

theorem follows_disjunction {deeper : Reader Expr} (same : inner' = disjunction deeper) :
    Follows (disjunction inner) (disjunction inner') Expr.written := by
  refine follows_leftChain (follows_leftChain (follows_leftChain (follows_leftChain
    (follows_leftChain (follows_union follows same) ?_) ?_) ?_) ?_) ?_ <;>
  · intro t join joined
    split at joined <;> cases joined <;> exact ⟨rfl, fun a b => rfl⟩

end Follow

/-- An expression that is read with a token for each literal is read where the literals are
written, by a reader of greater depth. -/
theorem expr_follows (depth more : Nat) :
    Follows (expr depth) (expr (depth + more + 1)) Expr.written := by
  induction depth with
  | zero =>
      intro ts e rest read
      cases read
  | succ depth ih =>
      have deep : depth + 1 + more + 1 = depth + more + 1 + 1 := by omega
      rw [deep]
      exact follows_disjunction ih rfl

end Levels

end BrowserScript.XPath
