import BrowserScript.Proofs.XPath.Following
import BrowserScript.Proofs.XPath.Printed
import BrowserScript.Proofs.XPath.Stops

/-!
The literal of a text stands for the text wherever a literal can stand: what is read with a single
token in its place is read with the literal written out, and has the same value. Main statement:
`literal_stands_for`.
-/

namespace BrowserScript

namespace XPath

open Locator (isPieced literalTokens)

variable {c : Char} {cs rest : List Char} {ts us : List Token} {e : Expr} {s : String}

/-! ## Literals that are read -/

/-- A literal ends at the next quote of its kind, so it has no quotes of both kinds. -/
theorem isPieced_of_next? (next : Token.next? c cs = some (.literal s, rest)) :
    isPieced s = false := by
  obtain ⟨d, pair, -⟩ | ⟨-, ⟨sign, -⟩ | ⟨-, word⟩⟩ := Token.next?_cases next
  · unfold Token.pair? at pair
    split at pair <;> cases pair
  · unfold Token.sign? at sign
    split at sign <;> cases sign
  · obtain ⟨q, quote, -, same⟩ | ⟨_, other, -⟩ | ⟨other, -⟩ | ⟨_, other, -⟩ :=
      Token.word?_cases word
    · obtain rfl := Token.literal.inj same
      have free : c ∉ cs.takeWhile (· != c) := by
        intro mem
        have other := List.mem_takeWhile_imp mem
        exact bne_iff_ne.mp other rfl
      rw [isPieced, String.toList_ofList]
      rcases quote with rfl | rfl <;>
        simp only [List.contains_eq_mem, decide_eq_false free, Bool.and_false, Bool.false_and]
    all_goals cases other

theorem isPieced_of_tokens? (read : tokens? cs = some ts) :
    ∀ s, .literal s ∈ ts → ¬ isPieced s := by
  induction cs using tokens?.induct generalizing ts with
  | case1 =>
      rw [tokens?] at read
      obtain rfl := Option.some.inj read
      exact fun s mem => absurd mem List.not_mem_nil
  | case2 c cs blank ih =>
      rw [tokens?_blank blank] at read
      exact ih read
  | case3 c cs solid t rest next ih =>
      rw [tokens?_next (Bool.eq_false_iff.mpr solid) next] at read
      obtain ⟨others, left, rfl⟩ := Option.map_eq_some_iff.mp read
      intro s mem
      rcases List.mem_cons.mp mem with rfl | mem
      · exact Bool.eq_false_iff.mp (isPieced_of_next? next)
      · exact ih left s mem
  | case4 c cs solid next =>
      rw [tokens?, if_neg solid] at read
      split at read
      · next found => cases found.symm.trans next
      · cases read

theorem written_plain (plain : ∀ s, .literal s ∈ ts → ¬ isPieced s) : written ts = ts := by
  induction ts with
  | nil => rfl
  | cons t ts ih =>
      have later := ih fun s mem => plain s (List.mem_cons_of_mem t mem)
      by_cases literal : ∃ s, t = .literal s
      · obtain ⟨s, rfl⟩ := literal
        rw [written, literalTokens, if_neg (plain s List.mem_cons_self), later]
        rfl
      · rw [written_cons (not_exists.mp literal), later]

/-- Where a literal takes several tokens, there is depth enough for what is read in its place. -/
theorem ofTokens?_written (read : Expr.ofTokens? ts = some e)
    (more : ts.length < (written ts).length) : Expr.ofTokens? (written ts) = some e.written := by
  rw [Expr.ofTokens?] at read
  split at read
  · next e' found =>
      cases read
      obtain ⟨deeper, length⟩ := Nat.exists_eq_add_of_lt more
      obtain ⟨-, found'⟩ := expr_follows (ts.length + 1) deeper ts e [] found
      have deep : (written ts).length + 1 = ts.length + 1 + deeper + 1 := by omega
      rw [Expr.ofTokens?, deep, found']
      rfl
  · cases read

end XPath

namespace Locator

open XPath (Expr Token Scope Context tokens? written primary disjunction)

variable {s : String} {before after : List Char} {ts us : List Token} {e : Expr}

/-- A literal begins with a quote, or with a name. -/
theorem literal_begins (s : String) : ∃ c more, (literal s).toList = c :: more ∧
    (Token.isStop c ∨ isPieced s ∧ Token.endsSigns c) := by
  rw [literal, String.toList_ofList, isPieced]
  generalize s.toList = cs
  cases single : cs.contains '\''
  · exact ⟨_, _, rfl, .inl (by decide)⟩
  · cases double : cs.contains '"'
    · exact ⟨_, _, rfl, .inl (by decide)⟩
    · exact ⟨_, _, rfl, .inr ⟨rfl, by decide⟩⟩

/-- Only the literal that was not read is written otherwise. -/
theorem written_embedded (front : tokens? before = some ts) (back : tokens? after = some us)
    (s : String) : written (ts ++ .literal s :: us) = ts ++ (literalTokens s ++ us) := by
  rw [XPath.written_append, written, XPath.written_plain (XPath.isPieced_of_tokens? front),
    XPath.written_plain (XPath.isPieced_of_tokens? back)]

/-- A literal within a text. One that begins with a name must not go on a name before it. -/
theorem tokens?_embedded (front : tokens? before = some ts) (back : tokens? after = some us)
    (apart : isPieced s → ∀ c ∈ before.getLast?, ¬ Token.isNameChar c) :
    tokens? (before ++ ((literal s).toList ++ after)) = some (ts ++ (literalTokens s ++ us)) := by
  obtain ⟨c, more, begins, kind⟩ := literal_begins s
  have joined : tokens? (before ++ c :: (more ++ after)) =
      (tokens? (c :: (more ++ after))).map (ts ++ ·) := by
    rcases kind with stop | ⟨pieced, signs⟩
    · exact XPath.tokens?_append_stop stop front _
    · exact XPath.tokens?_append_apart signs (fun _ => apart pieced) front _
  rw [begins, List.cons_append, joined, ← List.cons_append, ← begins, tokens?_literal, back]
  rfl

theorem ofTokens?_embedded (front : tokens? before = some ts) (back : tokens? after = some us)
    (read : Expr.ofTokens? (ts ++ .literal s :: us) = some e) :
    Expr.ofTokens? (ts ++ (literalTokens s ++ us)) =
      some (if isPieced s then e.written else e) := by
  have text := written_embedded front back s
  cases pieced : isPieced s with
  | true =>
      have more : (ts ++ Token.literal s :: us).length <
          (written (ts ++ .literal s :: us)).length := by
        rw [text, literalTokens, if_pos pieced]
        simp only [List.length_append, List.length_cons]
        omega
      rw [← text, XPath.ofTokens?_written read more]
      rfl
  | false =>
      rw [literalTokens, pieced]
      exact read

theorem parse?_literal (s : String) : Expr.parse? (literal s) = some (literalExpr s) := by
  have whole := tokens?_literal s []
  rw [List.append_nil, tokens?] at whole
  rw [Expr.parse?, whole]
  refine XPath.ofTokens?_of_path 1 ?_ fun depth => path_literal s (XPath.ends_nil 8)
  dsimp only
  rw [List.append_nil, literalTokens]
  split <;> simp

/-- The literal of a text is one primary expression, the whole of what is read from it, with the
text as its value everywhere; and an expression that is read with a single token for it is also
read with the literal within its text, and has the same value everywhere. -/
theorem literal_stands_for (s : String) :
    (∃ ts e, (∀ rest, tokens? ((literal s).toList ++ rest) = (tokens? rest).map (ts ++ ·)) ∧
      (∀ inner rest, primary (disjunction inner) (ts ++ rest) = some (e, rest)) ∧
      Expr.parse? (literal s) = some e ∧
      ∀ (scope : Scope) (ctx : Context), e.eval scope ctx = some (.string s)) ∧
    ∀ (before after : String) ts us e,
      tokens? before.toList = some ts → tokens? after.toList = some us →
      (isPieced s → ∀ c ∈ before.toList.getLast?, ¬ Token.isNameChar c) →
      Expr.ofTokens? (ts ++ .literal s :: us) = some e →
      ∃ e', Expr.parse? (before ++ literal s ++ after) = some e' ∧
        ∀ (scope : Scope) (ctx : Context), e'.eval scope ctx = e.eval scope ctx := by
  refine ⟨⟨literalTokens s, literalExpr s, tokens?_literal s, fun inner => primary_literal inner s,
    parse?_literal s, fun scope => eval_literalExpr scope s⟩, ?_⟩
  intro before after ts us e front back apart read
  refine ⟨if isPieced s then e.written else e, ?_, fun scope ctx => ?_⟩
  · rw [Expr.parse?, String.toList_append, String.toList_append, List.append_assoc,
      tokens?_embedded front back apart]
    exact ofTokens?_embedded front back read
  · split
    · exact e.eval_written scope ctx
    · rfl

/-- `'a'=concat('it', "'", 's "5"')` -/
theorem literal_stands_for_operand :
    ∃ e, Expr.parse? ("'a'=" ++ literal "it's \"5\"" ++ "") = some e ∧
      ∀ scope ctx, e.eval scope ctx =
        (Expr.compare .eq (.literal "a") (.literal "it's \"5\"")).eval scope ctx := by
  have front : tokens? "'a'=".toList = some [.literal "a", .eq] := by
    have free : '\'' ∉ ['a'] := by decide
    have quoted := XPath.tokens?_quoted (.inr rfl) free ['=']
    rw [XPath.tokens?_sign '=' rfl fun _ => rfl, tokens?] at quoted
    exact quoted
  have back : tokens? "".toList = some [] := by
    have empty : "".toList = [] := rfl
    rw [empty, tokens?]
  have read : Expr.ofTokens? ([.literal "a", .eq] ++ [.literal "it's \"5\""]) =
      some (.compare .eq (.literal "a") (.literal "it's \"5\"")) := by
    have printed := XPath.ofTokens?_tokens
      (.operator (.compare .eq) (.literal "a") (.literal "it's \"5\""))
    rw [XPath.Expr.tokens, XPath.Expr.tokensAt, XPath.bare_apply] at printed
    exact printed
  have apart : isPieced "it's \"5\"" → ∀ c ∈ "'a'=".toList.getLast?, ¬ Token.isNameChar c := by
    intro _ c last
    obtain rfl : '=' = c := Option.some.inj last
    decide
  exact (literal_stands_for "it's \"5\"").2 "'a'=" "" _ _ _ front back apart read

end Locator

end BrowserScript
