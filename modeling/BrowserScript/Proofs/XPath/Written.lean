import BrowserScript.Proofs.Selector.Agreement

/-!
Literals as they are written. A text with quotes of both kinds is put together from pieces, so it
takes several tokens where any other literal is one; the value of the expression is the same.
-/

namespace BrowserScript.XPath

open Locator (isPieced literalTokens literalExpr)

/-- The tokens, each literal as its text is written. -/
def written : List Token → List Token
  | [] => []
  | .literal s :: ts => literalTokens s ++ written ts
  | t :: ts => t :: written ts

mutual

/-- The expression with what is read for each literal as it is written. -/
def Expr.written : Expr → Expr
  | .or a b => .or a.written b.written
  | .and a b => .and a.written b.written
  | .compare op a b => .compare op a.written b.written
  | .add a b => .add a.written b.written
  | .sub a b => .sub a.written b.written
  | .union parts => .union (Expr.writtenAll parts)
  | .path absolute steps => .path absolute (Step.writtenAll steps)
  | .filter primary predicates steps =>
    .filter primary.written (Expr.writtenAll predicates) (Step.writtenAll steps)
  | .literal s => literalExpr s
  | .number f => .number f
  | .call f args => .call f (Expr.writtenAll args)

def Expr.writtenAll : List Expr → List Expr
  | [] => []
  | e :: es => e.written :: Expr.writtenAll es

def Step.written : Step → Step
  | .step axis test predicates => .step axis test (Expr.writtenAll predicates)

def Step.writtenAll : List Step → List Step
  | [] => []
  | st :: sts => st.written :: Step.writtenAll sts

end

theorem writtenAll_eq (es : List Expr) : Expr.writtenAll es = es.map Expr.written := by
  induction es with
  | nil => rfl
  | cons e es ih => rw [Expr.writtenAll, ih, List.map_cons]

theorem stepsWritten_eq (sts : List Step) : Step.writtenAll sts = sts.map Step.written := by
  induction sts with
  | nil => rfl
  | cons st sts ih => rw [Step.writtenAll, ih, List.map_cons]

/-! ## Tokens -/

section Tokens

variable {t : Token} {ts us rest more : List Token}

/-- The tokens that the literal of a text can begin with. -/
def Token.beginsLiteral : Token → Bool
  | .literal _ => true
  | .name s => s == "concat"
  | _ => false

theorem beginsLiteral_literalTokens {s : String} (begins : literalTokens s ++ more = t :: rest) :
    t.beginsLiteral := by
  rw [literalTokens] at begins
  split at begins
  all_goals
    obtain ⟨rfl, -⟩ := List.cons.inj begins
    rfl

theorem ne_literal (own : t.beginsLiteral = false) (s : String) : t ≠ .literal s := by
  rintro rfl
  cases own

theorem written_append (ts us : List Token) : written (ts ++ us) = written ts ++ written us := by
  induction ts with
  | nil => rfl
  | cons t ts ih =>
      cases t <;> rw [List.cons_append, written, written, ih] <;> simp

theorem written_name (s : String) (ts : List Token) :
    written (.name s :: ts) = .name s :: written ts := by
  rw [written]
  intro text same
  cases same

theorem written_cons (other : ∀ s, t ≠ .literal s) (ts : List Token) :
    written (t :: ts) = t :: written ts := by
  cases t <;> first | rfl | exact absurd rfl (other _)

/-- What no literal begins with stands where it stood. -/
theorem begins_of_written (own : t.beginsLiteral = false) (begins : written ts = t :: us) :
    ∃ rest, ts = t :: rest ∧ written rest = us := by
  cases ts with
  | nil => cases begins
  | cons x ts =>
      by_cases literal : ∃ s, x = .literal s
      · obtain ⟨s, rfl⟩ := literal
        rw [beginsLiteral_literalTokens begins] at own
        cases own
      · rw [written_cons (not_exists.mp literal)] at begins
        obtain ⟨rfl, rfl⟩ := List.cons.inj begins
        exact ⟨ts, rfl, rfl⟩

theorem written_ne (own : t.beginsLiteral = false) (other : ∀ rest, ts ≠ t :: rest)
    (rest : List Token) : written ts ≠ t :: rest := by
  intro begins
  obtain ⟨rest, same, -⟩ := begins_of_written own begins
  exact other rest same

theorem name_of_written {s : String} (own : t.beginsLiteral = false) (other : t ≠ .leftParen)
    (begins : written ts = .name s :: t :: us) : ∃ rest, ts = .name s :: t :: rest := by
  cases ts with
  | nil => cases begins
  | cons x ts =>
      by_cases literal : ∃ s, x = .literal s
      · obtain ⟨text, rfl⟩ := literal
        rw [written, literalTokens] at begins
        split at begins
        · exact absurd (List.cons.inj (List.cons.inj begins).2).1.symm other
        · cases begins
      · rw [written_cons (not_exists.mp literal)] at begins
        obtain rfl := (List.cons.inj begins).1
        obtain ⟨rest, rfl, -⟩ := begins_of_written own (List.cons.inj begins).2
        exact ⟨rest, rfl⟩

theorem length_le_written (ts : List Token) : ts.length ≤ (written ts).length := by
  induction ts with
  | nil => exact Nat.le_refl 0
  | cons t ts ih =>
      by_cases literal : ∃ s, t = .literal s
      · obtain ⟨s, rfl⟩ := literal
        have some : 1 ≤ (literalTokens s).length := by
          rw [literalTokens]
          split <;> simp
        rw [written, List.length_append, List.length_cons]
        omega
      · rw [written_cons (not_exists.mp literal)]
        exact Nat.succ_le_succ ih

theorem length_written_lt (split : rest <:+ ts) (less : rest.length < ts.length) :
    (written rest).length < (written ts).length := by
  obtain ⟨taken, rfl⟩ := split
  have some := length_le_written taken
  rw [written_append]
  rw [List.length_append] at less ⊢
  omega

end Tokens

/-! ## Values -/

section Values

variable (s : Scope)

mutual

/-- A literal has its text as the value however it is written, so every expression keeps its
value. -/
theorem Expr.eval_written : (e : Expr) → ∀ ctx, e.written.eval s ctx = e.eval s ctx
  | .or a b, ctx => by rw [Expr.written, Expr.eval, Expr.eval, a.eval_written, b.eval_written]
  | .and a b, ctx => by rw [Expr.written, Expr.eval, Expr.eval, a.eval_written, b.eval_written]
  | .compare op a b, ctx => by
      rw [Expr.written, Expr.eval, Expr.eval, a.eval_written, b.eval_written]
  | .add a b, ctx => by rw [Expr.written, Expr.eval, Expr.eval, a.eval_written, b.eval_written]
  | .sub a b, ctx => by rw [Expr.written, Expr.eval, Expr.eval, a.eval_written, b.eval_written]
  | .union parts, ctx => by rw [Expr.written, Expr.eval, Expr.eval, evalAll_written parts]
  | .path absolute steps, ctx => by
      rw [Expr.written, Expr.eval, Expr.eval, applySteps_written steps]
  | .filter primary predicates steps, ctx => by
      rw [Expr.written, Expr.eval, Expr.eval, primary.eval_written]
      simp only [applyPredicates_written predicates, applySteps_written steps]
  | .literal t, ctx => by rw [Expr.written, Locator.eval_literalExpr, Expr.eval]
  | .number f, ctx => by rw [Expr.written]
  | .call f args, ctx => by rw [Expr.written, Expr.eval, Expr.eval, evalAll_written args]

theorem evalAll_written : (es : List Expr) → ∀ ctx,
    evalAll s (Expr.writtenAll es) ctx = evalAll s es ctx
  | [], ctx => by rw [Expr.writtenAll]
  | e :: es, ctx => by
      rw [Expr.writtenAll, evalAll, evalAll, e.eval_written, evalAll_written es]

theorem applyPredicates_written : (ps : List Expr) → ∀ items,
    applyPredicates s (Expr.writtenAll ps) items = applyPredicates s ps items
  | [], items => by rw [Expr.writtenAll]
  | p :: ps, items => by
      rw [Expr.writtenAll, applyPredicates, applyPredicates, funext p.eval_written]
      simp only [applyPredicates_written ps]

theorem Step.apply_written : (st : Step) → ∀ item, st.written.apply s item = st.apply s item
  | .step axis test predicates, item => by
      rw [Step.written, Step.apply, Step.apply, applyPredicates_written predicates]

theorem applySteps_written : (sts : List Step) → ∀ items,
    applySteps s (Step.writtenAll sts) items = applySteps s sts items
  | [], items => by rw [Step.writtenAll]
  | st :: sts, items => by
      rw [Step.writtenAll, applySteps, applySteps, funext st.apply_written]
      simp only [applySteps_written sts]

end

end Values

end BrowserScript.XPath
