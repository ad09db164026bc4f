import BrowserScript.Proofs.XPath.Levels
import BrowserScript.Proofs.XPath.Spelling
import Mathlib.Data.List.Forall2

/-!
Expressions read from tokens, from the inner levels to the outer ones: a path, an equation of two
paths, a call with its arguments, predicates and the steps of a path. What is read ends where no
level can go on, so each statement is about all that may follow.
-/

namespace BrowserScript

namespace XPath

open Text (loop loop_stop loop_each)

variable {inner : Reader Expr} {ts more rest : List Token} {e a b : Expr} {s : String}

/-- A reader takes all of these tokens for the expression, whatever it is closed by. As an argument
they are not taken for the end of the arguments. -/
structure Reads (inner : Reader Expr) (ts : List Token) (e : Expr) : Prop where
  begins : ∀ more rest, ts ++ more ≠ .rightParen :: rest
  all : ∀ rest, Ends 1 rest → inner (ts ++ rest) = some (e, rest)

/-! ## Whole expressions -/

/-- A path is all that stands in brackets. -/
theorem disjunction_of_path (read : path inner ts = some (e, rest)) (ends : Ends 2 rest) :
    disjunction inner ts = some (e, rest) :=
  readerAt_of_le (by decide) (by decide) (Nat.le_refl 8) read ends

/-- No path is deeper than it has tokens. -/
theorem ofTokens?_of_path (deep : Nat) (tokens : deep ≤ ts.length)
    (read : ∀ depth, path (expr (depth + deep)) ts = some (e, [])) :
    Expr.ofTokens? ts = some e := by
  obtain ⟨depth, length⟩ := Nat.exists_eq_add_of_le' tokens
  have whole := disjunction_of_path (read depth) (ends_nil 2)
  simp only [Expr.ofTokens?, expr, length] at whole ⊢
  rw [whole]

theorem equality_of_paths (left : path inner ts = some (a, .eq :: more))
    (right : path inner more = some (b, rest)) (less : rest.length ≤ more.length)
    (ends : Ends 4 rest) : equality inner ts = some (.compare .eq a b, rest) := by
  have first : readerAt inner 5 ts = some (a, .eq :: more) :=
    readerAt_of_le (by decide) (by decide) (Nat.le_refl 8) left (ends_cons (by decide) more)
  have second : readerAt inner 5 more = some (b, rest) :=
    readerAt_of_le (by decide) (by decide) (Nat.le_refl 8) right (ends.mono (Nat.le_succ 4))
  exact readerAt_infix (.compare .eq) first second less ends

/-- A union that is all there is. -/
theorem disjunction_of_union (read : union inner ts = some (e, [])) :
    disjunction inner ts = some (e, []) :=
  readerAt_of_le (by decide) (by decide) (by decide : 7 ≤ 8) read (ends_nil 2)

/-! ## Literals, attributes and calls -/

theorem predicates_none (stop : ∀ ts, rest ≠ .leftBracket :: ts) :
    predicates inner rest = some ([], rest) := by
  refine loop_stop ?_
  cases rest with
  | nil => rfl
  | cons t rest => cases t <;> first | rfl | exact absurd rfl (stop rest)

theorem stepsAfter_none (slash : ∀ ts, rest ≠ .slash :: ts)
    (slashes : ∀ ts, rest ≠ .doubleSlash :: ts) : stepsAfter inner rest = some ([], rest) := by
  cases rest with
  | nil => rfl
  | cons t rest =>
      cases t <;> first | rfl | exact absurd rfl (slash rest) | exact absurd rfl (slashes rest)

/-- What is no step: an expression, with the predicates and the steps that follow it. -/
theorem path_filtered {ps : List Expr} {found : List Step} {between : List Token}
    (read : primary inner ts = some (e, more)) (first : startsStep ts = false)
    (slash : ∀ more, ts ≠ .slash :: more) (slashes : ∀ more, ts ≠ .doubleSlash :: more)
    (filtered : predicates inner more = some (ps, between))
    (followed : stepsAfter inner between = some (found, rest)) :
    path inner ts = some (if ps.isEmpty && found.isEmpty then e else .filter e ps found, rest) := by
  unfold path
  split
  · next more => exact absurd rfl (slash more)
  · next more => exact absurd rfl (slashes more)
  · rw [first, read, Option.bind_eq_bind, Option.bind_some]
    dsimp only
    rw [filtered, Option.bind_eq_bind, Option.bind_some]
    dsimp only
    rw [followed]
    rfl

/-- What is no step, and neither filtered nor followed by steps. -/
theorem path_of_primary (read : primary inner ts = some (e, rest)) (first : startsStep ts = false)
    (slash : ∀ more, ts ≠ .slash :: more) (slashes : ∀ more, ts ≠ .doubleSlash :: more)
    (ends : Ends 8 rest) : path inner ts = some (e, rest) :=
  path_filtered read first slash slashes (predicates_none (ends.ne (by decide)))
    (stepsAfter_none (ends.ne (by decide)) (ends.ne (by decide)))

theorem path_literal (s : String) (ends : Ends 8 rest) :
    path inner (.literal s :: rest) = some (.literal s, rest) := by
  refine path_of_primary rfl rfl ?_ ?_ ends <;>
  · intro more same
    cases same

theorem nodeTest_name (stop : ∀ ts, rest ≠ .leftParen :: ts) (s : String) :
    nodeTest (.name s :: rest) = some (.name (Text.asciiLowered s), rest) := by
  unfold nodeTest
  split
  · next same => cases same
  · next same => exact absurd (List.cons.inj same).2 (stop _)
  · next same => exact absurd (List.cons.inj same).2 (stop _)
  · next same =>
      cases same
      rfl
  · next other => exact absurd rfl (other _ _)

/-- What one slash or two add to the steps found before. -/
def slashes? : Token → Option (List Step → Step → List Step)
  | .slash => some fun found st => found ++ [st]
  | .doubleSlash => some fun found st => found ++ [.anywhere, st]
  | _ => none

theorem steps_joining (inner : Reader Expr) :
    ∃ round, Joining (step inner) slashes? round ∧
      ∀ ts, steps inner ts = (step inner ts).bind fun first => loop round [first.1] first.2 := by
  refine ⟨?round, ⟨?next, ?stop⟩, ?all⟩
  case all =>
    intro ts
    rfl
  case next =>
    intro found t ts join joined
    unfold slashes? at joined
    split at joined <;> cases joined <;> rfl
  case stop =>
    intro found ts ends
    dsimp only
    split
    · cases ends _ rfl
    · cases ends _ rfl
    · rfl

/-- How steps are read: a first one, then rounds of a slash or two and one step. -/
theorem steps_rounds (inner : Reader Expr) :
    ∃ round : List Step → List Token → Option (Option (List Step × List Token)),
      (∀ ts st rest, step inner ts = some (st, rest) →
        steps inner ts = Text.loop round [st] rest) ∧
      (∀ found ts st rest, step inner ts = some (st, rest) →
        round found (.slash :: ts) = some (some (found ++ [st], rest)) ∧
        round found (.doubleSlash :: ts) = some (some (found ++ [.anywhere, st], rest))) ∧
      ∀ found rest, (∀ ts, rest ≠ .slash :: ts) → (∀ ts, rest ≠ .doubleSlash :: ts) →
        round found rest = some none := by
  obtain ⟨round, joining, all⟩ := steps_joining inner
  refine ⟨round, ?start, ?next, ?stop⟩
  case start =>
    intro ts st rest read
    rw [all, read]
    rfl
  case next =>
    intro found ts st rest read
    rw [joining.next found .slash ts _ rfl, joining.next found .doubleSlash ts _ rfl, read]
    exact ⟨rfl, rfl⟩
  case stop =>
    intro found rest slash slashes
    refine joining.stop found rest fun t head => ?_
    obtain ⟨ts, rfl⟩ := List.head?_eq_some_iff.mp head
    cases t <;> first | rfl | exact absurd rfl (slash ts) | exact absurd rfl (slashes ts)

theorem steps_one {st : Step} (read : step inner ts = some (st, rest))
    (slash : ∀ ts, rest ≠ .slash :: ts) (slashes : ∀ ts, rest ≠ .doubleSlash :: ts) :
    steps inner ts = some ([st], rest) := by
  obtain ⟨round, first, -, stop⟩ := steps_rounds inner
  rw [first ts st rest read, loop_stop (stop [st] rest slash slashes)]

/-- An attribute of the context. -/
def attributeOf (name : String) : Expr :=
  .path false [.step .attribute (.name (Text.asciiLowered name)) []]

theorem path_attribute (name : String) (ends : Ends 8 rest) :
    path inner (.at :: .name name :: rest) = some (attributeOf name, rest) := by
  have test : nodeTest (.name name :: rest) = some (.name (Text.asciiLowered name), rest) :=
    nodeTest_name (ends.ne (by decide)) name
  have filtered : predicates inner rest = some ([], rest) := predicates_none (ends.ne (by decide))
  have read : step inner (.at :: .name name :: rest) =
      some (.step .attribute (.name (Text.asciiLowered name)) [], rest) := by
    simp [step, axis, test, filtered]
  have all := steps_one read (ends.ne (by decide)) (ends.ne (by decide))
  simp [path, startsStep, all, attributeOf]

theorem reads_literal (inner : Reader Expr) (s : String) :
    Reads (disjunction inner) [.literal s] (.literal s) where
  begins more rest same := by cases same
  all _ ends := disjunction_of_path (path_literal s (ends.mono (by decide))) (ends.mono (by decide))

theorem reads_attribute (inner : Reader Expr) (name : String) :
    Reads (disjunction inner) [.at, .name name] (attributeOf name) where
  begins more rest same := by cases same
  all _ ends :=
    disjunction_of_path (path_attribute name (ends.mono (by decide))) (ends.mono (by decide))

/-! ## Calls -/

def callTokens (f : Function) (args : List (List Token)) : List Token :=
  .name f.word :: .leftParen :: (listed args ++ [.rightParen])

theorem named?_word (f : Function) : Function.named? f.word = some f := by
  cases f <;> decide

section Calls

variable {α : Type} {tokens : α → List Token} {expr : α → Expr} {args : List α}

theorem arguments_listed (reads : ∀ x ∈ args, Reads inner (tokens x) (expr x)) (rest : List Token) :
    arguments inner (listed (args.map tokens) ++ .rightParen :: rest) =
      some (args.map expr, rest) := by
  cases args with
  | nil => rfl
  | cons x xs =>
      have text : listed ((x :: xs).map tokens) ++ .rightParen :: rest =
          tokens x ++ ((xs.flatMap fun y => .comma :: tokens y) ++ .rightParen :: rest) := by
        simp [listed, List.flatMap_map]
      have last : Ends 1 (.rightParen :: rest) := ends_cons (by decide) rest
      have comma (more : List Token) : Ends 1 (.comma :: more) := ends_cons (by decide) more
      obtain ⟨first, reads⟩ := List.forall_mem_cons.mp reads
      have ends : Ends 1 ((xs.flatMap fun y => .comma :: tokens y) ++ .rightParen :: rest) := by
        cases xs with
        | nil => exact last
        | cons y ys => exact comma _
      rw [text]
      unfold arguments
      split
      · next same => exact absurd same (first.begins _ _)
      · rw [first.all _ ends, Option.bind_eq_bind, Option.bind_some]
        dsimp only
        rw [loop_each _ expr (Ends 1)]
        · rfl
        · exact fun y mem => ⟨List.cons_ne_nil _ _, fun more => comma _⟩
        · exact last
        · intro y mem found more after
          have read := (reads y mem).all more after
          simp only [List.cons_append, read, Option.map_some]
        · exact fun found => rfl

theorem primary_call (f : Function) (reads : ∀ x ∈ args, Reads inner (tokens x) (expr x))
    (admitted : f.admits args.length) (rest : List Token) :
    primary inner (callTokens f (args.map tokens) ++ rest) =
      some (.call f (args.map expr), rest) := by
  have read := arguments_listed reads rest
  have text : callTokens f (args.map tokens) ++ rest =
      .name f.word :: .leftParen :: (listed (args.map tokens) ++ .rightParen :: rest) := by
    simp [callTokens]
  have count : f.admits (args.map expr).length := by rwa [List.length_map]
  rw [text, primary, named?_word, Option.bind_eq_bind, Option.bind_some, read]
  exact if_pos count

/-- None of the names of functions is that of a node test. -/
theorem startsStep_call (f : Function) (ts : List Token) :
    startsStep (.name f.word :: .leftParen :: ts) = false := by
  cases f <;> rfl

theorem path_call_map (f : Function) (reads : ∀ x ∈ args, Reads inner (tokens x) (expr x))
    (admitted : f.admits args.length) (ends : Ends 8 rest) :
    path inner (callTokens f (args.map tokens) ++ rest) = some (.call f (args.map expr), rest) := by
  refine path_of_primary (primary_call f reads admitted rest) (startsStep_call f _) ?_ ?_ ends <;>
  · intro more same
    cases same

/-- A call of a function by its name. -/
theorem path_call {texts : List (List Token)} {es : List Expr} (f : Function)
    (reads : List.Forall₂ (Reads inner) texts es) (admitted : f.admits es.length)
    (ends : Ends 8 rest) : path inner (callTokens f texts ++ rest) = some (.call f es, rest) := by
  obtain ⟨length, each⟩ := List.forall₂_iff_zip.mp reads
  have first : (texts.zip es).map Prod.fst = texts := List.map_fst_zip (Nat.le_of_eq length)
  have second : (texts.zip es).map Prod.snd = es := List.map_snd_zip (Nat.le_of_eq length.symm)
  have count : f.admits (texts.zip es).length := by rwa [← second, List.length_map] at admitted
  have call := path_call_map f (fun x mem => each (a := x.1) (b := x.2) mem) count ends
  rwa [first, second] at call

theorem reads_call {texts : List (List Token)} {es : List Expr} (f : Function)
    (reads : List.Forall₂ (Reads inner) texts es) (admitted : f.admits es.length) :
    Reads (disjunction inner) (callTokens f texts) (.call f es) where
  begins more rest same := by cases same
  all rest ends :=
    disjunction_of_path (path_call f reads admitted (ends.mono (by decide)))
      (ends.mono (by decide))

end Calls

/-! ## Predicates and steps -/

theorem predicates_each {α : Type} {tokens : α → List Token} {expr : α → Expr} {xs : List α}
    (reads : ∀ x ∈ xs, Reads inner (tokens x) (expr x)) (stop : ∀ ts, rest ≠ .leftBracket :: ts) :
    predicates inner ((xs.flatMap fun x => .leftBracket :: (tokens x ++ [.rightBracket])) ++ rest) =
      some (xs.map expr, rest) := by
  refine loop_each _ expr (fun _ => True) (fun x mem => ⟨List.cons_ne_nil _ _, fun _ => trivial⟩)
    trivial ?_ ?_ []
  · intro x mem found more after
    have read := (reads x mem).all (.rightBracket :: more) (ends_cons (by decide) more)
    simp [read]
  · intro found
    cases rest with
    | nil => rfl
    | cons t rest => cases t <;> first | rfl | exact absurd rfl (stop rest)

theorem axis_name (stop : ∀ ts, rest ≠ .twoColons :: ts) (s : String) :
    axis (.name s :: rest) = some (.child, .name s :: rest) := by
  unfold axis
  split
  · next same => cases same
  · next same => exact absurd (List.cons.inj same).2 (stop _)
  · rfl

/-- The children of a name, or all, for which predicates hold. -/
theorem step_child {ps : List Expr} (tag : Option String) (call : ∀ ts, more ≠ .leftParen :: ts)
    (colons : ∀ ts, more ≠ .twoColons :: ts) (read : predicates inner more = some (ps, rest)) :
    step inner ((tag.map Token.name).getD .star :: more) =
      some (.step .child ((tag.map fun s => .name (Text.asciiLowered s)).getD .any) ps, rest) := by
  cases tag with
  | none => simp [step, axis, nodeTest, read]
  | some s => simp [step, axis_name colons, nodeTest_name call, read]

/-- Paths with a pipe between them; one alone is no union. -/
theorem union_each {α : Type} {tokens : α → List Token} {expr : α → Expr} {x : α} {xs : List α}
    (reads : ∀ y ∈ x :: xs, ∀ rest, Ends 8 rest →
      path inner (tokens y ++ rest) = some (expr y, rest)) (ends : Ends 7 rest) :
    union inner (tokens x ++ ((xs.flatMap fun y => .pipe :: tokens y) ++ rest)) =
      some (if xs.isEmpty then expr x else .union ((x :: xs).map expr), rest) := by
  obtain ⟨first, reads⟩ := List.forall_mem_cons.mp reads
  have pipe (ts : List Token) : Ends 8 (.pipe :: ts) := ends_cons (by decide) ts
  have last : Ends 8 rest := ends.mono (Nat.le_succ 7)
  have follows : Ends 8 ((xs.flatMap fun y => .pipe :: tokens y) ++ rest) := by
    cases xs with
    | nil => exact last
    | cons y ys => exact pipe _
  rw [union, first _ follows, Option.bind_eq_bind, Option.bind_some]
  dsimp only
  rw [loop_each _ expr (Ends 8)]
  · cases xs <;> rfl
  · exact fun y mem => ⟨List.cons_ne_nil _ _, fun more => pipe _⟩
  · exact last
  · intro y mem found more after
    have read := reads y mem more after
    simp only [List.cons_append, read, Option.map_some]
  · intro found
    have stop := ends.ne (t := .pipe) (Nat.le_refl 7)
    cases rest with
    | nil => rfl
    | cons t rest => cases t <;> first | rfl | exact absurd rfl (stop rest)

end XPath

namespace Locator

open XPath (Expr Token Reader Reads Ends path primary disjunction disjunction_of_path)

variable {inner : Reader Expr} {rest : List Token}

def literalExpr (s : String) : Expr :=
  if isPieced s then .call .concat ((pieces s.toList).map fun p => .literal (String.ofList p))
  else .literal s

/-- The literal of a text is a primary expression, with nothing left of it. -/
theorem primary_literal (inner : Reader Expr) (s : String) (rest : List Token) :
    primary (disjunction inner) (literalTokens s ++ rest) = some (literalExpr s, rest) := by
  rw [literalTokens, literalExpr]
  split
  · next pieced =>
      have quoted := List.contains_iff_mem.mp (Bool.and_eq_true_iff.mp pieced).1
      exact XPath.primary_call .concat (fun p _ => XPath.reads_literal inner (String.ofList p))
        (decide_eq_true (two_le_length_pieces quoted)) rest
  · rfl

theorem path_literal (s : String) (ends : Ends 8 rest) :
    path (disjunction inner) (literalTokens s ++ rest) = some (literalExpr s, rest) := by
  refine XPath.path_of_primary (primary_literal inner s rest) ?_ ?_ ?_ ends
  all_goals rw [literalTokens]
  · split <;> rfl
  all_goals
    split <;>
    · intro more same
      cases same

theorem reads_literal (inner : Reader Expr) (s : String) :
    Reads (disjunction (disjunction inner)) (literalTokens s) (literalExpr s) where
  begins more rest := by
    rw [literalTokens]
    split <;>
    · intro same
      cases same
  all _ ends := disjunction_of_path (path_literal s (ends.mono (by decide))) (ends.mono (by decide))

end Locator

end BrowserScript
