import BrowserScript.Locator.Basic
import BrowserScript.Proofs.Selector.Agreement

/-!
The two queries of a lookup under a heading. Whatever texts are written into them, they are read
back as the expressions they are meant to be: the elements anywhere below a node that a condition
holds for, below the document or below the ancestor that is so many steps up.
-/

namespace BrowserScript.Locator

open Selector (Test)
open XPath (Token Expr Step Reader Reads Ends ends_cons tokens? tokens?_next tokens?_sign
  tokens?_name tokens?_blank tokens?_comma EndsName endsName_cons callTokens disjunction readerAt)

/-! ## Expressions -/

/-- The attributes in which a target is shown. -/
def shownAttributes : List String := ["value", "title", "alt", "placeholder"]

/-- The texts right below the context. -/
def ownTexts : Expr := .path false [.step .child .text []]

/-- Whether the first text below the context contains a text. -/
def containsText (s : String) : Expr := .call .contains [ownTexts, literalExpr s]

def showsText (s : String) : Expr :=
  shownAttributes.foldl (fun e name => .or e (Test.equals name s).expr) (containsText s)

/-- All elements below that a condition holds for. -/
def below (condition : Expr) : List Step := [.anywhere, .step .child .any [condition]]

/-- All of them below the ancestor that is so many steps up. -/
def climb (depth : Nat) (condition : Expr) : List Step :=
  List.replicate depth (.step .parent .node []) ++ below condition

def headingExpr (heading : String) : Expr := .path true (below (containsText heading))

def sectionExpr (depth : Nat) (target : String) : Expr :=
  .path false (.step .self .node [] :: climb depth (showsText target))

/-! ## Tokens -/

def containsTokens (s : String) : List Token :=
  callTokens .contains [[.name "text", .leftParen, .rightParen], literalTokens s]

def showsTokens (s : String) : List Token :=
  containsTokens s ++ shownAttributes.flatMap fun name => .name "or" :: (Test.equals name s).tokens

def belowTokens (condition : List Token) : List Token :=
  .doubleSlash :: .star :: .leftBracket :: (condition ++ [.rightBracket])

def climbTokens (depth : Nat) (condition : List Token) : List Token :=
  (List.replicate depth [.slash, .twoDots]).flatten ++ belowTokens condition

def sectionTokens (depth : Nat) (target : String) : List Token :=
  .dot :: climbTokens depth (showsTokens target)

/-! ## From texts to tokens -/

theorem tokens?_contains (s : String) (rest : List Char) :
    tokens? ("contains(text(), ".toList ++ ((literal s).toList ++ ')' :: rest)) =
      (tokens? rest).map (containsTokens s ++ ·) := by
  have left := tokens?_sign '(' rfl (fun _ => rfl)
  have right := tokens?_sign ')' rfl (fun _ => rfl)
  have text (cs : List Char) : "contains(text(), ".toList ++ cs =
      "contains".toList ++ '(' :: ("text".toList ++ '(' :: ')' :: ',' :: ' ' :: cs) := rfl
  rw [text, tokens?_name rfl (endsName_cons rfl _), left, tokens?_name rfl (endsName_cons rfl _),
    left, right, tokens?_comma, tokens?_literal, right]
  simp [Function.comp_def, containsTokens, callTokens, XPath.listed, XPath.Function.word]

/-- What may still be shown in attributes, up to the end of the predicate. -/
theorem tokens?_shown {names : List String} (named : ∀ name ∈ names, Token.isName name.toList)
    (s : String) (rest : List Char) :
    tokens? ((names.flatMap fun name => " or ".toList ++ (Test.equals name s).condition.toList) ++
        ']' :: rest) =
      (tokens? (']' :: rest)).map
        ((names.flatMap fun name => .name "or" :: (Test.equals name s).tokens) ++ ·) := by
  induction names with
  | nil => simp
  | cons name names ih =>
      obtain ⟨first, named⟩ := List.forall_mem_cons.mp named
      have ends : EndsName ((names.flatMap fun name =>
          " or ".toList ++ (Test.equals name s).condition.toList) ++ ']' :: rest) := by
        cases names <;> exact endsName_cons rfl _
      have own := Selector.tokens?_condition (.equals name s) (List.forall_mem_singleton.mpr first)
        ends
      have text (cs : List Char) : " or ".toList ++ cs = ' ' :: ("or".toList ++ ' ' :: cs) := rfl
      rw [List.flatMap_cons, List.append_assoc, List.append_assoc, text, tokens?_blank rfl,
        tokens?_name rfl (endsName_cons rfl _), tokens?_blank rfl, own, ih named]
      simp [Function.comp_def]

theorem tokens?_below {condition : List Char} {ts : List Token}
    (read : tokens? (condition ++ [']']) = (tokens? [']']).map (ts ++ ·)) :
    tokens? ("//*[".toList ++ (condition ++ [']'])) = some (belowTokens ts) := by
  have text (cs : List Char) : "//*[".toList ++ cs = '/' :: '/' :: '*' :: '[' :: cs := rfl
  have last : tokens? [']'] = some [.rightBracket] := by
    rw [tokens?_sign ']' rfl (fun _ => rfl), tokens?]
    rfl
  rw [text, tokens?_next rfl rfl, tokens?_sign '*' rfl (fun _ => rfl),
    tokens?_sign '[' rfl (fun _ => rfl), read, last]
  rfl

theorem tokens?_parents (depth : Nat) (rest : List Char) :
    tokens? ((List.replicate depth "/..".toList).flatten ++ rest) =
      (tokens? rest).map ((List.replicate depth [Token.slash, .twoDots]).flatten ++ ·) := by
  induction depth with
  | zero => simp
  | succ depth ih =>
      have slash (cs : List Char) : tokens? ('/' :: '.' :: cs) =
          (tokens? ('.' :: cs)).map (.slash :: ·) :=
        tokens?_next rfl (Token.next?_slash (by simp))
      have text (cs : List Char) : "/..".toList ++ cs = '/' :: '.' :: '.' :: cs := rfl
      rw [List.replicate_succ, List.flatten_cons, List.append_assoc, text, slash,
        tokens?_next rfl rfl, ih]
      simp [Function.comp_def, List.replicate_succ]

theorem tokens?_headingPath (heading : String) :
    tokens? (headingPath heading).toList = some (belowTokens (containsTokens heading)) := by
  have text : (headingPath heading).toList = "//*[".toList ++
      (("contains(text(), ".toList ++ ((literal heading).toList ++ [')'])) ++ [']']) := by
    unfold headingPath
    simp
  rw [text]
  refine tokens?_below ?_
  rw [List.append_assoc, List.append_assoc]
  exact tokens?_contains heading [']']

theorem tokens?_sectionPath (depth : Nat) (target : String) :
    tokens? (sectionPath depth target).toList = some (sectionTokens depth target) := by
  let condition := "contains(text(), ".toList ++ ((literal target).toList ++ ')' ::
    shownAttributes.flatMap fun name =>
      " or ".toList ++ (Test.equals name target).condition.toList)
  have text : (sectionPath depth target).toList =
      '.' :: ((List.replicate depth "/..".toList).flatten ++ ("//*[".toList ++
        (condition ++ [']']))) := by
    unfold condition sectionPath shownAttributes Test.condition
    simp [List.flatMap_def]
  have read : tokens? (condition ++ [']']) = (tokens? [']']).map (showsTokens target ++ ·) := by
    have named : ∀ name ∈ shownAttributes, Token.isName name.toList := by decide
    rw [List.append_assoc, List.append_assoc, List.cons_append, tokens?_contains,
      tokens?_shown named]
    simp [Function.comp_def, showsTokens]
  have climbs := tokens?_parents depth ("//*[".toList ++ (condition ++ [']']))
  rw [tokens?_below read] at climbs
  have slash : ∃ cs, (List.replicate depth "/..".toList).flatten ++
      ("//*[".toList ++ (condition ++ [']'])) = '/' :: cs := by
    cases depth <;> exact ⟨_, rfl⟩
  obtain ⟨cs, slash⟩ := slash
  rw [text]
  rw [slash] at climbs ⊢
  rw [tokens?_next rfl rfl, climbs]
  rfl

/-! ## From tokens to expressions -/

variable {inner : Reader Expr} {rest : List Token} {ts : List Token} {e : Expr}

theorem path_ownTexts (ends : Ends 8 rest) :
    XPath.path inner (.name "text" :: .leftParen :: .rightParen :: rest) =
      some (ownTexts, rest) := by
  have filtered : XPath.predicates inner rest = some ([], rest) :=
    XPath.predicates_none (ends.ne (by decide))
  have read : XPath.step inner (.name "text" :: .leftParen :: .rightParen :: rest) =
      some (.step .child .text [], rest) := by
    simp [XPath.step, XPath.axis, XPath.nodeTest, filtered]
  have all := XPath.steps_one read (ends.ne (by decide)) (ends.ne (by decide))
  simp [XPath.path, XPath.startsStep, all, ownTexts]

theorem path_contains (s : String) (ends : Ends 8 rest) :
    XPath.path (disjunction (disjunction inner)) (containsTokens s ++ rest) =
      some (containsText s, rest) := by
  have texts : Reads (disjunction (disjunction inner)) [.name "text", .leftParen, .rightParen]
      ownTexts :=
    ⟨fun more rest same => (by cases same), fun rest ends => XPath.disjunction_of_path
      (path_ownTexts (ends.mono (by decide))) (ends.mono (by decide))⟩
  exact XPath.path_call .contains (.cons texts (.cons (reads_literal inner s) .nil)) rfl ends

theorem reads_containsText (s : String) :
    Reads (disjunction (disjunction (disjunction inner))) (containsTokens s) (containsText s) :=
  ⟨fun more rest same => (by cases same), fun rest ends => XPath.disjunction_of_path
    (path_contains s (ends.mono (by decide))) (ends.mono (by decide))⟩

/-- The conditions are joined from the left, the one on texts first. -/
theorem reads_showsText (s : String) :
    Reads (disjunction (disjunction (disjunction inner))) (showsTokens s) (showsText s) where
  begins more rest same := by cases same
  all rest ends := by
    have each : ∀ name ∈ shownAttributes, ∀ rest, Ends 3 rest →
        readerAt (disjunction (disjunction inner)) 3 ((Test.equals name s).tokens ++ rest) =
          some ((Test.equals name s).expr, rest) := fun name _ rest ends =>
      XPath.readerAt_of_le (r := 3) (k := 4) (by decide) (by decide) (by decide)
        (Selector.equality_equals name s (ends.mono (by decide))) ends
    have first : readerAt (disjunction (disjunction inner)) 3 (showsTokens s ++ rest) =
        some (containsText s, (shownAttributes.flatMap fun name =>
          .name "or" :: (Test.equals name s).tokens) ++ rest) := by
      rw [showsTokens, List.append_assoc]
      exact XPath.readerAt_of_le (r := 3) (k := 8) (by decide) (by decide) (by decide)
        (path_contains s (ends_cons (by decide) _)) (ends_cons (by decide) _)
    exact XPath.readerAt_operands .or first each (ends.mono (by decide))

theorem step_below (reads : Reads inner ts e) :
    XPath.step inner (.star :: .leftBracket :: (ts ++ [.rightBracket])) =
      some (.step .child .any [e], []) := by
  have read : XPath.predicates inner (.leftBracket :: (ts ++ [.rightBracket])) =
      some ([e], []) := by
    have each : XPath.predicates inner
        (([(ts, e)].flatMap fun x => .leftBracket :: (x.1 ++ [.rightBracket])) ++ []) =
          some ([(ts, e)].map Prod.snd, []) :=
      XPath.predicates_each (List.forall_mem_singleton.mpr reads) (by simp)
    simpa using each
  exact XPath.step_child none (by simp) (by simp) read

theorem path_below (reads : Reads inner ts e) :
    XPath.path inner (belowTokens ts) = some (.path true (below e), []) := by
  have all := XPath.steps_one (step_below reads) (by simp) (by simp)
  simp [XPath.path, belowTokens, all, below]

theorem climbTokens_succ (depth : Nat) (ts : List Token) :
    climbTokens (depth + 1) ts = .slash :: .twoDots :: climbTokens depth ts := rfl

/-- One round for each step up, and a last one that leads down again. -/
theorem path_climb (depth : Nat) (reads : Reads inner ts e) :
    XPath.path inner (.dot :: climbTokens depth ts) =
      some (.path false (.step .self .node [] :: climb depth e), []) := by
  obtain ⟨round, start, next, stop⟩ := XPath.steps_rounds inner
  have unfiltered (k : Nat) :
      XPath.predicates inner (climbTokens k ts) = some ([], climbTokens k ts) := by
    have ends : Ends 9 (climbTokens k ts) := by
      cases k <;> exact ends_cons (by decide) _
    exact XPath.predicates_none (ends.ne (by decide))
  -- the steps found so far are general, as each round adds to them
  have rounds (found : List Step) :
      Text.loop round found (climbTokens depth ts) = some (found ++ climb depth e, []) := by
    induction depth generalizing found with
    | zero =>
        have last := (next found _ _ _ (step_below reads)).2
        exact (Text.loop_next last (by simp)).trans
          (Text.loop_stop (stop _ _ (by simp) (by simp)))
    | succ k ih =>
        have up : XPath.step inner (.twoDots :: climbTokens k ts) =
            some (.step .parent .node [], climbTokens k ts) := by
          simp [XPath.step, unfiltered k]
        have one := (next found _ _ _ up).1
        rw [climbTokens_succ, Text.loop_next one (Nat.lt_succ_of_lt (Nat.lt_succ_self _)), ih,
          List.append_assoc]
        rfl
  have own : XPath.step inner (.dot :: climbTokens depth ts) =
      some (.step .self .node [], climbTokens depth ts) := by
    simp [XPath.step, unfiltered depth]
  have all := start _ _ _ own
  rw [rounds] at all
  simp [XPath.path, XPath.startsStep, all]

theorem parse?_headingPath (heading : String) :
    Expr.parse? (headingPath heading) = some (headingExpr heading) := by
  rw [Expr.parse?, tokens?_headingPath]
  refine XPath.ofTokens?_of_path 3 ?_ fun depth => path_below (reads_containsText heading)
  simp [belowTokens]

theorem parse?_sectionPath (depth : Nat) (target : String) :
    Expr.parse? (sectionPath depth target) = some (sectionExpr depth target) := by
  rw [Expr.parse?, tokens?_sectionPath]
  refine XPath.ofTokens?_of_path 3 ?_ fun _ => path_climb depth (reads_showsText target)
  simp [sectionTokens, climbTokens, belowTokens]
  omega

end BrowserScript.Locator
