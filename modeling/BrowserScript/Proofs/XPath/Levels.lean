import BrowserScript.XPath.Parser
import Mathlib.Data.Nat.Init

/-!
The levels of expressions as ranks. An expression is read at a place that asks for a rank, from 2
for a disjunction to 8 for a path, and up to a token of a lower rank; so what is read at one place
is read at every looser one that such a token follows. The operators of a rank group to the left:
their first operand is read, and then an operator and one operand in each round.
-/

namespace BrowserScript

namespace Text

variable {τ α : Type} {round : α → List τ → Option (Option (α × List τ))} {a b : α}
  {ts rest : List τ}

theorem loop_stop (stop : round a ts = some none) : loop round a ts = some (a, ts) := by
  rw [loop, stop]

theorem loop_next (next : round a ts = some (some (b, rest))) (less : rest.length < ts.length) :
    loop round a ts = loop round b rest := by
  rw [loop, next]
  exact if_pos less

/-- Rounds that each take one piece take all pieces. `After` says what may follow a piece. -/
theorem loop_foldl {γ : Type} (piece : γ → List τ) (join : α → γ → α) (After : List τ → Prop)
    {xs : List γ} (begins : ∀ x ∈ xs, piece x ≠ [] ∧ ∀ more, After (piece x ++ more))
    (after : After rest) (next : ∀ x ∈ xs, ∀ a more, After more →
      round a (piece x ++ more) = some (some (join a x, more)))
    (stop : ∀ a, round a rest = some none) (a : α) :
    loop round a (xs.flatMap piece ++ rest) = some (xs.foldl join a, rest) := by
  induction xs generalizing a with
  | nil => exact loop_stop (stop a)
  | cons x xs ih =>
      obtain ⟨⟨some, -⟩, begins⟩ := List.forall_mem_cons.mp begins
      obtain ⟨first, next⟩ := List.forall_mem_cons.mp next
      have follows : After (xs.flatMap piece ++ rest) := by
        cases xs with
        | nil => exact after
        | cons y ys =>
            rw [List.flatMap_cons, List.append_assoc]
            exact (begins y List.mem_cons_self).2 _
      have less : (xs.flatMap piece ++ rest).length <
          (piece x ++ (xs.flatMap piece ++ rest)).length := by
        have first := List.length_pos_iff.mpr some
        simp only [List.length_append]
        omega
      rw [List.flatMap_cons, List.append_assoc, loop_next (first a _ follows) less,
        ih begins next, List.foldl_cons]

/-- Rounds that each add the value of one piece. -/
theorem loop_each {β γ : Type} {round : List β → List τ → Option (Option (List β × List τ))}
    (piece : γ → List τ) (value : γ → β) (After : List τ → Prop) {xs : List γ}
    (begins : ∀ x ∈ xs, piece x ≠ [] ∧ ∀ more, After (piece x ++ more)) (after : After rest)
    (next : ∀ x ∈ xs, ∀ found more, After more →
      round found (piece x ++ more) = some (some (found ++ [value x], more)))
    (stop : ∀ found, round found rest = some none) (found : List β) :
    loop round found (xs.flatMap piece ++ rest) = some (found ++ xs.map value, rest) := by
  have values : xs.foldl (fun found x => found ++ [value x]) found = found ++ xs.map value := by
    clear begins next
    induction xs generalizing found with
    | nil => exact (List.append_nil found).symm
    | cons x xs ih =>
        rw [List.foldl_cons, ih, List.append_assoc, List.singleton_append, List.map_cons]
  rw [loop_foldl piece (fun found x => found ++ [value x]) After begins after next stop, values]

end Text

namespace XPath

open Text (loop loop_stop loop_next loop_foldl)

/-! ## Ranks -/

/-- The operators of two operands; they group to the left. -/
inductive Operator
  | or | and | compare (op : Comparison) | add | sub

def Comparison.rank : Comparison → Nat
  | .eq | .ne => 4
  | .lt | .le | .gt | .ge => 5

def Comparison.token : Comparison → Token
  | .eq => .eq
  | .ne => .ne
  | .lt => .lt
  | .le => .le
  | .gt => .gt
  | .ge => .ge

namespace Operator

def rank : Operator → Nat
  | .or => 2
  | .and => 3
  | .compare op => op.rank
  | .add | .sub => 6

def token : Operator → Token
  | .or => .name "or"
  | .and => .name "and"
  | .compare op => op.token
  | .add => .plus
  | .sub => .minus

def apply : Operator → Expr → Expr → Expr
  | .or => .or
  | .and => .and
  | .compare op => .compare op
  | .add => .add
  | .sub => .sub

end Operator

/-- The rank of the expressions that a token cannot go on; none of them is gone on by a token that
closes. -/
def Token.rank : Token → Nat
  | .rightBracket | .rightParen | .comma => 0
  | .name "or" => 2
  | .name "and" => 3
  | .eq | .ne => 4
  | .lt | .le | .gt | .ge => 5
  | .plus | .minus => 6
  | .pipe => 7
  | .slash | .doubleSlash => 8
  | _ => 9

theorem token_rank (op : Operator) : op.token.rank = op.rank := by
  cases op with
  | compare op => cases op <;> rfl
  | _ => rfl

theorem operator_rank (op : Operator) : 2 ≤ op.rank ∧ op.rank ≤ 6 := by
  cases op with
  | compare op => cases op <;> decide
  | _ => decide

variable {inner : Reader Expr} {ts more rest : List Token} {e a b : Expr} {r k : Nat}

/-- What follows an expression at a place that asks for a rank. -/
def Ends (r : Nat) (rest : List Token) : Prop := ∀ t ∈ rest.head?, t.rank < r

theorem Ends.mono (ends : Ends r rest) (le : r ≤ k) : Ends k rest :=
  fun t mem => Nat.lt_of_lt_of_le (ends t mem) le

theorem ends_cons {t : Token} (less : t.rank < r) (ts : List Token) : Ends r (t :: ts) := by
  intro u mem
  obtain rfl := Option.some.inj mem
  exact less

theorem ends_nil (r : Nat) : Ends r [] := fun _ mem => by cases mem

theorem Ends.ne {t : Token} (ends : Ends r rest) (high : r ≤ t.rank) (ts : List Token) :
    rest ≠ t :: ts := by
  rintro rfl
  exact Nat.not_lt_of_le high (ends t rfl)

/-! ## Places -/

/-- What reads an expression at a place that asks for a rank. -/
def readerAt (inner : Reader Expr) : Nat → Reader Expr
  | 0 | 1 | 2 => disjunction inner
  | 3 => conjunction inner
  | 4 => equality inner
  | 5 => order inner
  | 6 => sum inner
  | 7 => union inner
  | _ => path inner

/-- Rounds of a token and what is read behind it, joined to what was found before. Any other token
ends them. -/
structure Joining {α β : Type} (read : Reader α) (op : Token → Option (β → α → β))
    (round : β → List Token → Option (Option (β × List Token))) : Prop where
  next : ∀ b t ts join, op t = some join →
    round b (t :: ts) = (read ts).map fun found => some (join b found.1, found.2)
  stop : ∀ b ts, (∀ t ∈ ts.head?, op t = none) → round b ts = some none

/-- How operands joined by operators are read: a first one, then rounds of an operator and one
operand. -/
theorem leftChain_rounds (operand : Reader Expr) (op : Token → Option (Expr → Expr → Expr)) :
    ∃ round, Joining operand op round ∧
      ∀ ts, leftChain operand op ts =
        (operand ts).bind fun first => loop round first.1 first.2 := by
  refine ⟨?round, ⟨?next, ?stop⟩, ?all⟩
  case all =>
    intro ts
    rfl
  case next =>
    intro a t ts join joined
    dsimp only
    rw [joined]
  case stop =>
    intro a ts ends
    cases ts with
    | nil => rfl
    | cons t ts =>
        dsimp only
        rw [ends t rfl]

/-- The rounds of the operators of a rank. -/
structure Rounds (inner : Reader Expr) (r : Nat)
    (round : Expr → List Token → Option (Option (Expr × List Token))) : Prop where
  start : ∀ ts e rest, readerAt inner (r + 1) ts = some (e, rest) →
    readerAt inner r ts = loop round e rest
  next : ∀ op : Operator, op.rank = r → ∀ a ts b rest, readerAt inner (r + 1) ts = some (b, rest) →
    round a (op.token :: ts) = some (some (op.apply a b, rest))
  stop : ∀ a rest, Ends r rest → round a rest = some none

/-- The places of operators are read as operands of the next rank joined by them. -/
theorem readerAt_eq_leftChain (inner : Reader Expr) (low : 2 ≤ r) (high : r ≤ 6) :
    ∃ op : Token → Option (Expr → Expr → Expr),
      readerAt inner r = leftChain (readerAt inner (r + 1)) op ∧
      (∀ o : Operator, o.rank = r → op o.token = some o.apply) ∧
      ∀ t : Token, t.rank < r → op t = none := by
  obtain rfl | rfl | rfl | rfl | rfl : r = 2 ∨ r = 3 ∨ r = 4 ∨ r = 5 ∨ r = 6 := by omega
  all_goals
    refine ⟨_, rfl, fun o own => ?_, fun t less => ?_⟩
    · rcases o with _ | _ | op | _ | _
      case compare => cases op <;> first | rfl | exact absurd own (by decide)
      all_goals first | rfl | exact absurd own (by decide)
    · split <;> first | rfl | exact absurd less (by decide)

theorem exists_rounds (inner : Reader Expr) (low : 2 ≤ r) (high : r ≤ 6) :
    ∃ round, Rounds inner r round := by
  obtain ⟨op, whole, joins, stops⟩ := readerAt_eq_leftChain inner low high
  obtain ⟨round, joining, all⟩ := leftChain_rounds (readerAt inner (r + 1)) op
  refine ⟨round, fun ts e rest read => ?start, fun o own a ts b rest read => ?next,
    fun a rest ends => joining.stop a rest fun t mem => stops t (ends t mem)⟩
  case start =>
    rw [whole, all, read]
    rfl
  case next =>
    rw [joining.next a o.token ts o.apply (joins o own), read]
    rfl

/-- A path that no other one follows is a union of one. -/
theorem union_of_path (read : path inner ts = some (e, rest)) (ends : Ends 7 rest) :
    union inner ts = some (e, rest) := by
  rw [union, read, Option.bind_eq_bind, Option.bind_some]
  dsimp only
  rw [loop_stop]
  · rfl
  · cases rest with
    | nil => rfl
    | cons t rest =>
        have less := ends t rfl
        cases t <;> first | rfl | exact absurd less (by decide)

/-- What is read at a place is read at the next looser one, if that cannot go on. -/
theorem readerAt_of_succ (low : 1 ≤ r) (high : r ≤ 7)
    (read : readerAt inner (r + 1) ts = some (e, rest)) (ends : Ends r rest) :
    readerAt inner r ts = some (e, rest) := by
  obtain rfl | rfl | ⟨low, high⟩ : r = 1 ∨ r = 7 ∨ 2 ≤ r ∧ r ≤ 6 := by omega
  · exact read
  · exact union_of_path read ends
  · obtain ⟨round, rounds⟩ := exists_rounds inner low high
    rw [rounds.start ts e rest read, loop_stop (rounds.stop e rest ends)]

theorem readerAt_of_le (low : 1 ≤ r) (le : r ≤ k) (high : k ≤ 8)
    (read : readerAt inner k ts = some (e, rest)) (ends : Ends r rest) :
    readerAt inner r ts = some (e, rest) := by
  induction k, le using Nat.le_induction with
  | base => exact read
  | succ k le ih =>
      exact ih (Nat.le_of_succ_le high)
        (readerAt_of_succ (Nat.le_trans low le) (Nat.le_of_succ_le_succ high) read (ends.mono le))

/-- An operator between two operands. -/
theorem readerAt_infix (op : Operator)
    (left : readerAt inner (op.rank + 1) ts = some (a, op.token :: more))
    (right : readerAt inner (op.rank + 1) more = some (b, rest)) (less : rest.length ≤ more.length)
    (ends : Ends op.rank rest) : readerAt inner op.rank ts = some (op.apply a b, rest) := by
  obtain ⟨low, high⟩ := operator_rank op
  obtain ⟨round, rounds⟩ := exists_rounds inner low high
  rw [rounds.start _ _ _ left, loop_next (rounds.next op rfl a _ b rest right)
    (Nat.lt_succ_of_le less), loop_stop (rounds.stop _ rest ends)]

/-- Operands of one operator are grouped to the left. -/
theorem readerAt_operands {α : Type} (op : Operator) {tokens : α → List Token} {expr : α → Expr}
    {xs : List α} (first : readerAt inner (op.rank + 1) ts =
      some (a, (xs.flatMap fun x => op.token :: tokens x) ++ rest))
    (reads : ∀ x ∈ xs, ∀ rest, Ends (op.rank + 1) rest →
      readerAt inner (op.rank + 1) (tokens x ++ rest) = some (expr x, rest))
    (ends : Ends op.rank rest) :
    readerAt inner op.rank ts = some (xs.foldl (fun a x => op.apply a (expr x)) a, rest) := by
  obtain ⟨low, high⟩ := operator_rank op
  obtain ⟨round, rounds⟩ := exists_rounds inner low high
  have sign (ts : List Token) : Ends (op.rank + 1) (op.token :: ts) :=
    ends_cons (by rw [token_rank]; exact Nat.lt_succ_self _) ts
  rw [rounds.start _ _ _ first]
  exact loop_foldl _ (fun a x => op.apply a (expr x)) (Ends (op.rank + 1))
    (fun x _ => ⟨List.cons_ne_nil _ _, fun more => sign _⟩) (ends.mono (Nat.le_succ _))
    (fun x mem a more ends => rounds.next op rfl a _ _ more (reads x mem more ends))
    (fun a => rounds.stop a rest ends) a

end XPath

end BrowserScript
