import BrowserScript.Proofs.XPath.Reading

/-!
Expressions printed as tokens, with the parentheses they need and no others, and read back. An
operand stands in parentheses if it binds more loosely than its place asks for; the place to the
right of an operator asks for more than the operator. A path that is a slash alone stands in
parentheses everywhere, because what follows could be read as its first step. Main statement:
`ofTokens?_tokens`.
-/

namespace BrowserScript.XPath

open Text (loop loop_stop loop_next loop_each)

/-! ## Ranks -/

/-- How tightly an expression holds together, from a slash alone up to what no operator can take
apart. -/
def Expr.rank : Expr → Nat
  | .path true [] => 1
  | .or .. => 2
  | .and .. => 3
  | .compare op .. => op.rank
  | .add .. | .sub .. => 6
  | .union _ => 7
  | .path .. | .filter .. | .literal _ | .number _ | .call .. => 8

/-! ## Tokens -/

/-- Texts with a token between them. -/
def separated (t : Token) : List (List Token) → List Token
  | [] => []
  | first :: more => first ++ more.flatMap (t :: ·)

def enclosed (ts : List Token) : List Token := .leftParen :: (ts ++ [.rightParen])

/-- The tokens of an expression of a rank, at a place that asks for a rank. -/
def placed (place rank : Nat) (ts : List Token) : List Token :=
  if rank < place then enclosed ts else ts

def NodeTest.tokens : NodeTest → List Token
  | .name s => [.name s]
  | .any => [.star]
  | .text => [.name "text", .leftParen, .rightParen]
  | .node => [.name "node", .leftParen, .rightParen]

def predicateTokens (texts : List (List Token)) : List Token :=
  texts.flatMap fun ts => .leftBracket :: (ts ++ [.rightBracket])

section Infix

variable (op : Operator) (a b : Expr) (left right : List Token)

/-- An operator between its operands; the left one may have the same operator on top. -/
def infixTokens : List Token :=
  placed op.rank a.rank left ++ op.token :: placed (op.rank + 1) b.rank right

end Infix

mutual

/-- The tokens of an expression without parentheses around it. -/
def Expr.bare : Expr → List Token
  | .or a b => infixTokens .or a b a.bare b.bare
  | .and a b => infixTokens .and a b a.bare b.bare
  | .compare op a b => infixTokens (.compare op) a b a.bare b.bare
  | .add a b => infixTokens .add a b a.bare b.bare
  | .sub a b => infixTokens .sub a b a.bare b.bare
  | .union parts => separated .pipe (Expr.placedAll 8 parts)
  | .path true steps => .slash :: separated .slash (Step.tokensAll steps)
  | .path false steps => separated .slash (Step.tokensAll steps)
  | .filter primary predicates steps =>
    enclosed primary.bare ++ (predicateTokens (Expr.placedAll 2 predicates) ++
      (Step.tokensAll steps).flatMap (.slash :: ·))
  | .literal s => [.literal s]
  | .number f => [.number f]
  | .call f args => callTokens f (Expr.placedAll 2 args)

def Expr.placedAll (place : Nat) : List Expr → List (List Token)
  | [] => []
  | e :: es => placed place e.rank e.bare :: Expr.placedAll place es

def Step.tokens : Step → List Token
  | .step axis test predicates =>
    .name axis.word :: .twoColons :: (test.tokens ++ predicateTokens (Expr.placedAll 2 predicates))

def Step.tokensAll : List Step → List (List Token)
  | [] => []
  | st :: sts => st.tokens :: Step.tokensAll sts

end

def Expr.tokensAt (place : Nat) (e : Expr) : List Token := placed place e.rank e.bare

/-- The tokens of an expression that stands alone. -/
def Expr.tokens (e : Expr) : List Token := e.tokensAt 2

theorem placedAll_eq (place : Nat) (es : List Expr) :
    Expr.placedAll place es = es.map (Expr.tokensAt place) := by
  induction es with
  | nil => rw [Expr.placedAll, List.map_nil]
  | cons e es ih =>
      rw [Expr.placedAll, ih]
      rfl

theorem tokensAll_eq (sts : List Step) : Step.tokensAll sts = sts.map Step.tokens := by
  induction sts with
  | nil => rw [Step.tokensAll, List.map_nil]
  | cons st sts ih => rw [Step.tokensAll, ih, List.map_cons]

variable {inner : Reader Expr} {ts more rest : List Token} {e a b : Expr} {r d place : Nat}

theorem rank_apply (op : Operator) (a b : Expr) : (op.apply a b).rank = op.rank := by
  cases op <;> rfl

theorem bare_apply (op : Operator) (a b : Expr) :
    (op.apply a b).bare = a.tokensAt op.rank ++ op.token :: b.tokensAt (op.rank + 1) := by
  cases op <;>
  · rw [Operator.apply, Expr.bare]
    rfl

theorem tokensAt_of_le (le : place ≤ e.rank) : e.tokensAt place = e.bare :=
  if_neg (Nat.not_lt_of_le le)

theorem tokensAt_of_lt (less : e.rank < place) : e.tokensAt place = enclosed e.bare := if_pos less

/-! ## Expressions -/

/-- An expression that is read from its tokens, in brackets that are deep enough, up to whatever
cannot go on after it. With an operator on top it is also what the rounds of that rank begin with,
as the left operand of the next operator. -/
structure Expr.Legible (e : Expr) : Prop where
  begins : ∀ more rest, e.bare ++ more ≠ .rightParen :: rest
  whole : ∀ d rest, e.bare.length ≤ d → Ends e.rank rest →
    readerAt (expr d) e.rank (e.bare ++ rest) = some (e, rest)
  first : ∀ d round rest, e.bare.length ≤ d → 2 ≤ e.rank → e.rank ≤ 6 →
    Rounds (expr d) e.rank round → Ends (e.rank + 1) rest →
    readerAt (expr d) e.rank (e.bare ++ rest) = loop round e rest

theorem rank_bounds (e : Expr) : 1 ≤ e.rank ∧ e.rank ≤ 8 := by
  unfold Expr.rank
  split
  case h_4 op _ _ => cases op <;> decide
  all_goals decide

namespace Expr.Legible

/-- An expression that no operator is on top of. -/
theorem of_whole (begins : ∀ more rest, e.bare ++ more ≠ .rightParen :: rest)
    (tight : e.rank < 2 ∨ 6 < e.rank) (whole : ∀ d rest, e.bare.length ≤ d → Ends e.rank rest →
      readerAt (expr d) e.rank (e.bare ++ rest) = some (e, rest)) : e.Legible where
  begins := begins
  whole := whole
  first d round rest _ low high := by omega

theorem of_path (begins : ∀ more rest, e.bare ++ more ≠ .rightParen :: rest) (tight : e.rank = 8)
    (read : ∀ d rest, e.bare.length ≤ d → Ends 8 rest →
      XPath.path (expr d) (e.bare ++ rest) = some (e, rest)) : e.Legible := by
  refine of_whole begins (by omega) ?_
  rw [tight]
  exact read

variable (legible : e.Legible)
include legible

theorem primary (fits : e.bare.length < d) (rest : List Token) :
    XPath.primary (expr d) (enclosed e.bare ++ rest) = some (e, rest) := by
  obtain ⟨d, rfl⟩ := Nat.exists_eq_succ_of_ne_zero (Nat.ne_zero_of_lt fits)
  obtain ⟨low, high⟩ := rank_bounds e
  have closing : Ends 1 (.rightParen :: rest) := ends_cons (by decide) rest
  have read : readerAt (expr d) 1 (e.bare ++ .rightParen :: rest) = some (e, .rightParen :: rest) :=
    readerAt_of_le (Nat.le_refl 1) low high
      (legible.whole d _ (Nat.le_of_lt_succ fits) (closing.mono low)) closing
  have inner : expr (d + 1) (e.bare ++ .rightParen :: rest) = some (e, .rightParen :: rest) := read
  have text : enclosed e.bare ++ rest = .leftParen :: (e.bare ++ .rightParen :: rest) := by
    simp [enclosed]
  rw [text, XPath.primary, inner]

/-- At a place that asks for more than the rank of the expression, parentheses are read. -/
theorem placed (low : 1 ≤ place) (high : place ≤ 8) (fits : (e.tokensAt place).length ≤ d)
    (ends : Ends place rest) :
    readerAt (expr d) place (e.tokensAt place ++ rest) = some (e, rest) := by
  obtain less | le := Nat.lt_or_ge e.rank place
  · rw [tokensAt_of_lt less] at fits ⊢
    have shorter : e.bare.length < d := by
      simp only [enclosed, List.length_cons, List.length_append] at fits
      omega
    have read : XPath.path (expr d) (enclosed e.bare ++ rest) = some (e, rest) := by
      refine path_of_primary (legible.primary shorter rest) rfl ?_ ?_ (ends.mono high) <;>
      · intro more same
        cases same
    exact readerAt_of_le low high (Nat.le_refl 8) read ends
  · rw [tokensAt_of_le le] at fits ⊢
    exact readerAt_of_le low le (rank_bounds e).2 (legible.whole d rest fits (ends.mono le)) ends

/-- The left operand of operators of a rank. -/
theorem chained {round : Expr → List Token → Option (Option (Expr × List Token))} (low : 2 ≤ r)
    (high : r ≤ 6) (fits : (e.tokensAt r).length ≤ d) (rounds : Rounds (expr d) r round)
    (ends : Ends (r + 1) rest) :
    readerAt (expr d) r (e.tokensAt r ++ rest) = loop round e rest := by
  by_cases same : e.rank = r
  · subst same
    rw [tokensAt_of_le (Nat.le_refl _)] at fits ⊢
    exact legible.first d round rest fits low high rounds ends
  · have next : e.tokensAt r = e.tokensAt (r + 1) := by
      obtain less | le := Nat.lt_or_ge e.rank r
      · rw [tokensAt_of_lt less, tokensAt_of_lt (Nat.lt_succ_of_lt less)]
      · rw [tokensAt_of_le le, tokensAt_of_le (Nat.lt_of_le_of_ne le (Ne.symm same))]
    rw [next] at fits ⊢
    refine rounds.start _ e rest (legible.placed ?_ ?_ fits ends) <;> omega

theorem tokensAt_begins (place : Nat) (more rest : List Token) :
    e.tokensAt place ++ more ≠ .rightParen :: rest := by
  rw [Expr.tokensAt, XPath.placed]
  split
  · intro same
    cases same
  · exact legible.begins more rest

/-- What stands in brackets or between commas. -/
theorem reads (fits : (e.tokensAt 2).length < d) : Reads (expr d) (e.tokensAt 2) e where
  begins := legible.tokensAt_begins 2
  all rest ends := by
    obtain ⟨d, rfl⟩ := Nat.exists_eq_succ_of_ne_zero (Nat.ne_zero_of_lt fits)
    exact legible.placed (by decide) (by decide) (Nat.le_of_lt_succ fits)
      (ends.mono (by decide))

end Expr.Legible

/-- The left operand is read into the rounds of the operator, the right one in one of them. -/
theorem legible_apply (op : Operator) (left : a.Legible) (right : b.Legible) :
    (op.apply a b).Legible := by
  obtain ⟨low, high⟩ := operator_rank op
  have first : ∀ d round rest, (op.apply a b).bare.length ≤ d → Rounds (expr d) op.rank round →
      Ends (op.rank + 1) rest →
      readerAt (expr d) op.rank ((op.apply a b).bare ++ rest) = loop round (op.apply a b) rest := by
    intro d round rest fits rounds ends
    rw [bare_apply, List.length_append, List.length_cons] at fits
    have sign : Ends (op.rank + 1) (op.token :: (b.tokensAt (op.rank + 1) ++ rest)) :=
      ends_cons (by rw [token_rank]; exact Nat.lt_succ_self _) _
    have second : readerAt (expr d) (op.rank + 1) (b.tokensAt (op.rank + 1) ++ rest) =
        some (b, rest) :=
      right.placed (Nat.le_add_left 1 _) (by omega) (by omega) ends
    have less : rest.length < (op.token :: (b.tokensAt (op.rank + 1) ++ rest)).length :=
      Nat.lt_succ_of_le (List.suffix_append ..).length_le
    rw [bare_apply, List.append_assoc, List.cons_append,
      left.chained low high (by omega) rounds sign,
      loop_next (rounds.next op rfl a _ b rest second) less]
  constructor
  · intro more rest
    rw [bare_apply, List.append_assoc]
    exact left.tokensAt_begins op.rank _ rest
  · rw [rank_apply]
    intro d rest fits ends
    obtain ⟨round, rounds⟩ := exists_rounds (expr d) low high
    rw [first d round rest fits rounds (ends.mono (Nat.le_succ _)),
      loop_stop (rounds.stop _ rest ends)]
  · rw [rank_apply]
    exact fun d round rest fits _ _ => first d round rest fits

section Lists

variable {t : Token} {texts : List (List Token)} {es args : List Expr} {f : Function}

theorem length_le_separated (t : Token) (mem : ts ∈ texts) :
    ts.length ≤ (separated t texts).length := by
  cases texts with
  | nil => cases mem
  | cons first more =>
      rw [separated, List.length_append]
      obtain rfl | mem := List.mem_cons.mp mem
      · exact Nat.le_add_right _ _
      · have sub : (t :: ts).Sublist (more.flatMap (t :: ·)) :=
          List.sublist_flatten_of_mem (List.mem_map_of_mem mem)
        have le := sub.length_le
        rw [List.length_cons] at le
        omega

theorem separated_comma (texts : List (List Token)) : separated .comma texts = listed texts := by
  cases texts <;> rfl

theorem length_lt_predicateTokens (mem : ts ∈ texts) :
    ts.length < (predicateTokens texts).length := by
  have sub : (.leftBracket :: (ts ++ [.rightBracket])).Sublist (predicateTokens texts) :=
    List.sublist_flatten_of_mem (List.mem_map_of_mem mem)
  have le := sub.length_le
  simp only [List.length_cons, List.length_append] at le
  omega

theorem length_lt_callTokens (f : Function) (mem : ts ∈ texts) :
    ts.length < (callTokens f texts).length := by
  have le := length_le_separated .comma mem
  rw [separated_comma] at le
  simp only [callTokens, List.length_cons, List.length_append]
  omega

theorem legible_literal (s : String) : (Expr.literal s).Legible := by
  refine .of_path (fun more rest same => by cases same) rfl fun d rest _ ends => ?_
  rw [Expr.bare]
  exact path_literal s ends

theorem legible_number (f : Float) : (Expr.number f).Legible := by
  refine .of_path (fun more rest same => by cases same) rfl fun d rest _ ends => ?_
  rw [Expr.bare]
  refine path_of_primary rfl rfl ?_ ?_ ends <;>
  · intro more same
    cases same

theorem bare_call (f : Function) (args : List Expr) :
    (Expr.call f args).bare = callTokens f (args.map (Expr.tokensAt 2)) := by
  rw [Expr.bare, placedAll_eq]

theorem legible_call (admitted : f.admits args.length) (legible : ∀ e ∈ args, e.Legible) :
    (Expr.call f args).Legible := by
  refine .of_path (fun more rest same => by cases same) rfl fun d rest fits ends => ?_
  rw [bare_call] at fits ⊢
  have reads : ∀ e ∈ args, Reads (expr d) (e.tokensAt 2) e := by
    intro e mem
    have short := length_lt_callTokens f (List.mem_map_of_mem mem (f := Expr.tokensAt 2))
    exact (legible e mem).reads (Nat.lt_of_lt_of_le short fits)
  have read := path_call_map f reads admitted ends
  rwa [List.map_id'] at read

theorem legible_union (two : 2 ≤ es.length) (legible : ∀ e ∈ es, e.Legible) :
    (Expr.union es).Legible := by
  obtain _ | ⟨a, _ | ⟨b, es⟩⟩ := es
  · cases two
  · exact absurd two (Nat.not_succ_le_self 1)
  have text : (Expr.union (a :: b :: es)).bare =
      a.tokensAt 8 ++ (b :: es).flatMap fun e => .pipe :: e.tokensAt 8 := by
    rw [Expr.bare, placedAll_eq, List.map_cons, separated, List.flatMap_map]
  refine .of_whole (fun more rest => ?_) (.inr (Nat.lt_succ_self 6)) fun d rest fits ends => ?_
  · rw [text, List.append_assoc]
    exact (legible a List.mem_cons_self).tokensAt_begins 8 _ rest
  · have reads : ∀ e ∈ a :: b :: es, ∀ rest, Ends 8 rest →
        path (expr d) (e.tokensAt 8 ++ rest) = some (e, rest) := by
      intro e mem rest ends
      have short : (e.tokensAt 8).length ≤ (Expr.union (a :: b :: es)).bare.length := by
        rw [Expr.bare, placedAll_eq]
        exact length_le_separated .pipe (List.mem_map_of_mem mem)
      exact (legible e mem).placed (by decide) (Nat.le_refl 8) (Nat.le_trans short fits) ends
    have read := union_each reads ends
    rw [← List.append_assoc, ← text, List.map_id'] at read
    exact read

end Lists

/-! ## Steps -/

/-- A step that is read from its tokens. Neither predicates nor an opening parenthesis may follow,
which would belong to it. -/
def Step.Legible (st : Step) : Prop :=
  ∀ d rest, st.tokens.length ≤ d → Ends 9 rest →
    XPath.step (expr d) (st.tokens ++ rest) = some (st, rest)

/-- A name test is compared in lower case. -/
def NodeTest.Lowered : NodeTest → Prop
  | .name s => Text.asciiLowered s = s
  | .any | .text | .node => True

section Steps

variable {ps : List Expr} {st : Step} {sts : List Step}

theorem axis_word (axis : Axis) (ts : List Token) :
    XPath.axis (.name axis.word :: .twoColons :: ts) = some (axis, ts) := by
  have named : Axis.named? axis.word = some axis := by cases axis <;> decide
  rw [XPath.axis, named]
  rfl

theorem nodeTest_tokens {test : NodeTest} (lowered : test.Lowered)
    (stop : ∀ ts, rest ≠ .leftParen :: ts) :
    nodeTest (test.tokens ++ rest) = some (test, rest) := by
  cases test with
  | name s =>
      have same : Text.asciiLowered s = s := lowered
      exact (nodeTest_name stop s).trans (by rw [same])
  | _ => rfl

theorem predicates_tokens (legible : ∀ e ∈ ps, e.Legible)
    (fits : (predicateTokens (ps.map (Expr.tokensAt 2))).length ≤ d)
    (stop : ∀ ts, rest ≠ .leftBracket :: ts) :
    predicates (expr d) (predicateTokens (ps.map (Expr.tokensAt 2)) ++ rest) = some (ps, rest) := by
  have reads : ∀ e ∈ ps, Reads (expr d) (e.tokensAt 2) e := by
    intro e mem
    have short := length_lt_predicateTokens (List.mem_map_of_mem mem (f := Expr.tokensAt 2))
    exact (legible e mem).reads (Nat.lt_of_lt_of_le short fits)
  have read := predicates_each reads stop
  rw [List.map_id'] at read
  rwa [predicateTokens, List.flatMap_map]

theorem legible_step {axis : Axis} {test : NodeTest} (lowered : test.Lowered)
    (legible : ∀ e ∈ ps, e.Legible) : (Step.step axis test ps).Legible := by
  intro d rest fits ends
  have text : (Step.step axis test ps).tokens = .name axis.word :: .twoColons ::
      (test.tokens ++ predicateTokens (ps.map (Expr.tokensAt 2))) := by
    rw [Step.tokens, placedAll_eq]
  rw [text] at fits ⊢
  simp only [List.length_cons, List.length_append] at fits
  have filtered := predicates_tokens legible (by omega : _ ≤ d) (ends.ne (Nat.le_refl 9))
  have call : ∀ ts, predicateTokens (ps.map (Expr.tokensAt 2)) ++ rest ≠ .leftParen :: ts := by
    cases ps with
    | nil => exact ends.ne (Nat.le_refl 9)
    | cons e ps =>
        intro ts same
        cases same
  have tested := nodeTest_tokens lowered call
  simp only [List.cons_append, List.append_assoc, step, axis_word, Option.bind_eq_bind,
    Option.bind_some, tested, filtered]

theorem separated_steps (st : Step) (sts : List Step) :
    separated .slash (Step.tokensAll (st :: sts)) =
      st.tokens ++ sts.flatMap fun st => .slash :: st.tokens := by
  rw [tokensAll_eq, List.map_cons, separated, List.flatMap_map]

theorem steps_separated (legible : ∀ s ∈ st :: sts, s.Legible)
    (fits : (separated .slash (Step.tokensAll (st :: sts))).length ≤ d) (ends : Ends 8 rest) :
    steps (expr d) (separated .slash (Step.tokensAll (st :: sts)) ++ rest) =
      some (st :: sts, rest) := by
  have reads : ∀ s ∈ st :: sts, ∀ rest, Ends 9 rest →
      step (expr d) (s.tokens ++ rest) = some (s, rest) := by
    intro s mem rest ends
    have short : s.tokens.length ≤ (separated .slash (Step.tokensAll (st :: sts))).length := by
      rw [tokensAll_eq]
      exact length_le_separated .slash (List.mem_map_of_mem mem)
    exact legible s mem d rest (Nat.le_trans short fits) ends
  obtain ⟨read, reads⟩ := List.forall_mem_cons.mp reads
  obtain ⟨round, start, next, stop⟩ := steps_rounds (expr d)
  have after (ts : List Token) : Ends 9 (.slash :: ts) := ends_cons (by decide) ts
  have last : Ends 9 rest := ends.mono (Nat.le_succ 8)
  have follows : Ends 9 ((sts.flatMap fun st => .slash :: st.tokens) ++ rest) := by
    cases sts with
    | nil => exact last
    | cons s sts => exact after _
  rw [separated_steps, List.append_assoc, start _ st _ (read _ follows),
    loop_each _ id (Ends 9) (fun s _ => ⟨List.cons_ne_nil _ _, fun more => after _⟩) last
      (fun s mem found more ends => (next found _ s more (reads s mem more ends)).1)
      (fun found => stop found rest (ends.ne (Nat.le_refl 8)) (ends.ne (Nat.le_refl 8))),
    List.map_id]
  rfl

/-- A step begins with the name of its axis, which two colons follow. -/
theorem separated_begins (st : Step) (sts : List Step) (more : List Token) :
    ∃ word ts, separated .slash (Step.tokensAll (st :: sts)) ++ more =
      .name word :: .twoColons :: ts := by
  obtain ⟨axis, test, ps⟩ := st
  rw [separated_steps, Step.tokens]
  exact ⟨axis.word, _, rfl⟩

theorem legible_slash : (Expr.path true []).Legible := by
  refine .of_whole (fun more rest same => ?_) (.inl (Nat.lt_succ_self 1)) fun d rest _ ends => ?_
  · rw [Expr.bare] at same
    cases same
  · have stands : startsStep rest = false := by
      cases rest with
      | nil => rfl
      | cons t rest =>
          have closing : t.rank < 1 := ends t rfl
          unfold Token.rank at closing
          split at closing <;> first | rfl | omega
    have read : path (expr d) (.slash :: rest) = some (.path true [], rest) := by
      rw [path, stands]
      rfl
    exact readerAt_of_le (Nat.le_refl 1) (by decide) (Nat.le_refl 8) read ends

theorem legible_steps (absolute : Bool) (legible : ∀ s ∈ st :: sts, s.Legible) :
    (Expr.path absolute (st :: sts)).Legible := by
  cases absolute with
  | true =>
      have text : (Expr.path true (st :: sts)).bare =
          .slash :: separated .slash (Step.tokensAll (st :: sts)) := by rw [Expr.bare]
      refine .of_path (fun more rest same => ?_) rfl fun d rest fits ends => ?_
      · rw [text] at same
        cases same
      · rw [text] at fits ⊢
        have read := steps_separated legible (Nat.le_of_succ_le fits) ends
        obtain ⟨word, ts, begins⟩ := separated_begins st sts rest
        rw [begins] at read
        rw [List.cons_append, begins, path, read]
        rfl
  | false =>
      have text : (Expr.path false (st :: sts)).bare =
          separated .slash (Step.tokensAll (st :: sts)) := by rw [Expr.bare]
      refine .of_path (fun more rest same => ?_) rfl fun d rest fits ends => ?_
      · obtain ⟨word, ts, begins⟩ := separated_begins st sts more
        rw [text, begins] at same
        cases same
      · rw [text] at fits ⊢
        have read := steps_separated legible fits ends
        obtain ⟨word, ts, begins⟩ := separated_begins st sts rest
        rw [begins] at read
        rw [begins, path, read]
        · rfl
        all_goals
          intro more same
          cases same

theorem legible_path {absolute : Bool} (proper : absolute ∨ sts ≠ [])
    (legible : ∀ s ∈ sts, s.Legible) : (Expr.path absolute sts).Legible := by
  cases sts with
  | nil =>
      obtain rfl := proper.resolve_right (fun some => some rfl)
      exact legible_slash
  | cons st sts => exact legible_steps absolute legible

theorem legible_filter {primary : Expr} (proper : ps ≠ [] ∨ sts ≠ []) (first : primary.Legible)
    (legible : ∀ e ∈ ps, e.Legible) (followed : ∀ s ∈ sts, s.Legible) :
    (Expr.filter primary ps sts).Legible := by
  have text : (Expr.filter primary ps sts).bare = enclosed primary.bare ++
      (predicateTokens (ps.map (Expr.tokensAt 2)) ++
        (Step.tokensAll sts).flatMap (.slash :: ·)) := by
    rw [Expr.bare, placedAll_eq]
  refine .of_path (fun more rest same => ?_) rfl fun d rest fits ends => ?_
  · rw [text] at same
    cases same
  · rw [text] at fits ⊢
    simp only [enclosed, List.cons_append, List.length_cons, List.length_append] at fits
    have after : stepsAfter (expr d) ((Step.tokensAll sts).flatMap (.slash :: ·) ++ rest) =
        some (sts, rest) := by
      cases sts with
      | nil => exact stepsAfter_none (ends.ne (Nat.le_refl 8)) (ends.ne (Nat.le_refl 8))
      | cons st sts =>
          have same : (Step.tokensAll (st :: sts)).flatMap (.slash :: ·) =
              .slash :: separated .slash (Step.tokensAll (st :: sts)) := by
            rw [Step.tokensAll, separated]
            rfl
          rw [same] at fits ⊢
          rw [List.length_cons] at fits
          exact steps_separated followed (by omega) ends
    have bracket : ∀ ts, (Step.tokensAll sts).flatMap (.slash :: ·) ++ rest ≠
        .leftBracket :: ts := by
      cases sts with
      | nil => exact ends.ne (by decide)
      | cons st sts =>
          intro ts same
          cases same
    have read : path (expr d) (enclosed primary.bare ++ (predicateTokens
          (ps.map (Expr.tokensAt 2)) ++ ((Step.tokensAll sts).flatMap (.slash :: ·) ++ rest))) =
        some (if ps.isEmpty && sts.isEmpty then primary else .filter primary ps sts,
          rest) := by
      refine path_filtered (first.primary (by omega) _) rfl ?_ ?_
        (predicates_tokens legible (by omega) bracket) after <;>
      · intro more same
        cases same
    have kept : (ps.isEmpty && sts.isEmpty) = false := by
      rcases proper with some | some <;> simp [List.isEmpty_eq_false_iff.mpr some]
    rw [kept] at read
    rw [List.append_assoc, List.append_assoc]
    exact read

end Steps

/-! ## Printed and read back -/

mutual

/-- Expressions that can be written: unions of at least two parts, relative paths of at least one
step, expressions with at least one predicate or step after them, and functions of as many
arguments as they take. -/
inductive Expr.WellFormed : Expr → Prop
  | operator (op : Operator) {a b : Expr} (left : a.WellFormed) (right : b.WellFormed) :
      (op.apply a b).WellFormed
  | union {parts : List Expr} (two : 2 ≤ parts.length) (each : ∀ e ∈ parts, e.WellFormed) :
      (Expr.union parts).WellFormed
  | path {absolute : Bool} {steps : List Step} (proper : absolute ∨ steps ≠ [])
      (each : ∀ st ∈ steps, st.WellFormed) : (Expr.path absolute steps).WellFormed
  | filter {primary : Expr} {predicates : List Expr} {steps : List Step}
      (proper : predicates ≠ [] ∨ steps ≠ []) (first : primary.WellFormed)
      (each : ∀ e ∈ predicates, e.WellFormed) (followed : ∀ st ∈ steps, st.WellFormed) :
      (Expr.filter primary predicates steps).WellFormed
  | literal (s : String) : (Expr.literal s).WellFormed
  | number (f : Float) : (Expr.number f).WellFormed
  | call {f : Function} {args : List Expr} (admitted : f.admits args.length)
      (each : ∀ e ∈ args, e.WellFormed) : (Expr.call f args).WellFormed

inductive Step.WellFormed : Step → Prop
  | step (axis : Axis) {test : NodeTest} {predicates : List Expr} (lowered : test.Lowered)
      (each : ∀ e ∈ predicates, e.WellFormed) : (Step.step axis test predicates).WellFormed

end

mutual

theorem Expr.WellFormed.legible {e : Expr} : e.WellFormed → e.Legible
  | .operator op left right => legible_apply op left.legible right.legible
  | .union two each => legible_union two fun e mem => (each e mem).legible
  | .path proper each => legible_path proper fun st mem => (each st mem).legible
  | .filter proper first each followed =>
    legible_filter proper first.legible (fun e mem => (each e mem).legible)
      fun st mem => (followed st mem).legible
  | .literal s => legible_literal s
  | .number f => legible_number f
  | .call admitted each => legible_call admitted fun e mem => (each e mem).legible

theorem Step.WellFormed.legible {st : Step} : st.WellFormed → st.Legible
  | .step _ lowered each => legible_step lowered fun e mem => (each e mem).legible

end

/-- Every expression that can be written is what its tokens make. -/
theorem ofTokens?_tokens (formed : e.WellFormed) : Expr.ofTokens? e.tokens = some e := by
  have read : expr (e.tokens.length + 1) (e.tokens ++ []) = some (e, []) :=
    formed.legible.placed (by decide) (by decide) (Nat.le_refl _) (ends_nil 2)
  rw [List.append_nil] at read
  rw [Expr.ofTokens?, read]

/-- `((/) | child::li[contains('x', 'y')])['a' - ('b' - 'c')]` -/
theorem ofTokens?_grouped :
    Expr.ofTokens? [.leftParen, .leftParen, .slash, .rightParen, .pipe, .name "child", .twoColons,
        .name "li", .leftBracket, .name "contains", .leftParen, .literal "x", .comma, .literal "y",
        .rightParen, .rightBracket, .rightParen, .leftBracket, .literal "a", .minus, .leftParen,
        .literal "b", .minus, .literal "c", .rightParen, .rightBracket] =
      some (.filter (.union [.path true [], .path false [.step .child (.name "li")
        [.call .contains [.literal "x", .literal "y"]]]])
        [.sub (.literal "a") (.sub (.literal "b") (.literal "c"))] []) := by
  have root : (Expr.path true []).WellFormed := .path (.inl rfl) (List.forall_mem_nil _)
  have test : (Expr.call .contains [.literal "x", .literal "y"]).WellFormed :=
    .call rfl (by simpa using ⟨.literal "x", .literal "y"⟩)
  have items : (Expr.path false [.step .child (.name "li")
      [.call .contains [.literal "x", .literal "y"]]]).WellFormed :=
    .path (.inr (List.cons_ne_nil _ _)) (by
      simpa using .step .child (by decide : Text.asciiLowered "li" = "li") (by simpa using test))
  have groups : (Expr.union [.path true [], .path false [.step .child (.name "li")
      [.call .contains [.literal "x", .literal "y"]]]]).WellFormed :=
    .union (by decide) (by simpa using ⟨root, items⟩)
  have difference : (Expr.sub (.literal "a") (.sub (.literal "b") (.literal "c"))).WellFormed :=
    .operator .sub (.literal "a") (.operator .sub (.literal "b") (.literal "c"))
  have read := ofTokens?_tokens (.filter (.inl (List.cons_ne_nil _ [])) groups
    (by simpa using difference) (List.forall_mem_nil _))
  rw [← read]
  congr 1

end BrowserScript.XPath
