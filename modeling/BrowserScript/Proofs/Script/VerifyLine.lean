import BrowserScript.Command.Action
import BrowserScript.Proofs.Script.Clause
import BrowserScript.Proofs.Script.Words
import BrowserScript.Proofs.Script.Statement

/-!
The command of a verify line. A line whose statement is understood stands in its command as the
statement alone, whatever else is written in it; keywords change nothing but the locator.
-/

namespace BrowserScript.Script

open Block

variable {c : Command} {v : VerifyStatement} {keywords : KeywordSet} {timeout line : Nat}
  {text src : List Char}

/-! ## The words of the line -/

theorem isVerify_push_of_other (other : c.isVerify = false) {word : String} (ne : word ≠ "verify") :
    (c.push word).isVerify = false := by
  rw [isVerify_push]
  split
  · exact beq_false_of_ne ne
  · exact other

theorem isVerify_push_push_of_other (other : c.isVerify = false) {word : String}
    (ne : word ≠ "verify") (next : String) : ((c.push word).push next).isVerify = false := by
  have begun : (c.push word).code ≠ [] := by simp [Command.push]
  rw [isVerify_push, if_neg begun]
  exact isVerify_push_of_other other ne

theorem isVerify_pushConnective (other : c.isVerify = false) :
    ({ c with code := pushConnective c.code } : Command).isVerify = false := by
  obtain ⟨line, code, src, timeout⟩ := c
  cases code with
  | nil => rfl
  | cons first rest =>
      unfold pushConnective
      split
      · exact other
      · split <;> exact other

/-- Taking up words ends with the statement, or with a command that verifies nothing. -/
theorem takeWords_of_statement (unread : Bool) (ws : List (List Char))
    (parsed : VerifyStatement.parse? c.src = some v) (other : c.isVerify = false)
    (verify : (takeWords unread c ws).isVerify) : takeWords unread c ws = v.applyTo c := by
  have word_ne {w : String} (apart : w ≠ "verify") {word : String} (eq : word == w) :
      word ≠ "verify" := eq_of_beq eq ▸ apart
  fun_induction takeWords unread c ws with
  | case1 =>
      have ne : Command.connective ≠ "verify" := by decide
      simp [isVerify_push_of_other other ne] at verify
  | case2 => simp [other] at verify
  | case3 _ _ _ _ literal ih =>
      exact ih parsed (isVerify_push_of_other other (ne_verify_of_startsLiteral literal)) verify
  | case4 _ _ _ _ _ word click ih =>
      exact ih parsed (isVerify_push_push_of_other other (word_ne (by decide) click) _) verify
  | case5 _ _ _ _ word _ wait ih =>
      exact ih parsed (isVerify_push_of_other other (word_ne (by decide) wait)) verify
  | case6 _ _ _ _ word _ wait delay _ ih =>
      exact ih parsed (isVerify_push_push_of_other other (word_ne (by decide) wait) _) verify
  | case7 _ _ _ _ _ word _ _ plain ih =>
      refine ih parsed (isVerify_push_of_other other ?_) verify
      rintro eq
      rw [eq] at plain
      exact absurd plain (by decide)
  | case8 _ _ _ _ _ word _ _ _ _ ih => exact ih parsed (isVerify_pushConnective other) verify
  | case9 _ _ _ _ _ word _ _ _ _ _ v' found =>
      obtain rfl := Option.some.inj (parsed.symm.trans found)
      rfl
  | case10 _ _ _ _ _ word _ _ _ _ _ missing =>
      rw [parsed] at missing
      cases missing
  | case11 _ _ _ _ _ word _ _ _ _ _ ih => exact ih parsed other verify

/-- The command of a line, once its statement is known. -/
theorem readLine_of_statement (parsed : VerifyStatement.parse? (String.ofList src) = some v)
    (verify : (readLine line timeout src).isVerify) : readLine line timeout src =
      v.applyTo { line, code := [], src := String.ofList src, timeout } := by
  unfold readLine at verify ⊢
  split at verify
  · rename_i code bullet
    rw [isVerify_of_bullet bullet rfl] at verify
    cases verify
  · exact takeWords_of_statement false _ parsed rfl verify

/-! ## Keywords -/

/-- A word between double quotes. -/
def inQuotes (s : String) : String := "\"" ++ s ++ "\""

theorem toList_inQuotes (s : String) : (inQuotes s).toList = '"' :: s.toList ++ ['"'] := by
  simp [inQuotes]

theorem inQuotes_ne {s w : String} (plain : w.toList.head? ≠ some '"') : inQuotes s ≠ w := by
  rintro rfl
  rw [toList_inQuotes] at plain
  exact plain rfl

theorem isQuoted_inQuotes (s : String) : Command.isQuoted (inQuotes s) = true :=
  isQuoted_of_ends rfl (toList_inQuotes s)

theorem unquote_inQuotes (s : String) : Command.unquote (inQuotes s) = s := by
  rw [unquote_of_ends rfl (toList_inQuotes s), String.ofList_toList]

/-- What a keyword stands for where it is named, unless the name is a path. -/
def named? (keywords : KeywordSet) (name : String) : Option String :=
  if name.toList.head? == some '/' then none
  else (keywords.lookup name).map fun k =>
    if k.hasVariable then Keyword.fill k.xpath [name] else k.xpath

theorem no_connective (e : String) : Command.connective ∉ ["verify", inQuotes e] := by
  have plain : inQuotes e ≠ "in" := inQuotes_ne (by decide)
  simp [Command.connective, plain.symm]

theorem inIndex_of_plain {e : String} (code : c.code = ["verify", inQuotes e]) :
    c.inIndex = none :=
  inIndex_of_free (code ▸ no_connective e)

theorem inIndex_of_code {e w : String} (code : c.code = ["verify", inQuotes e, "in", w]) :
    c.inIndex = some 2 :=
  inIndex_of_split (no_connective e) code

theorem locator_applyTo (v : VerifyStatement) (c : Command) :
    (v.applyTo c).locator = v.locator := by
  obtain ⟨subject, operator, expected, locator, target⟩ := v
  cases locator with
  | none => rw [Command.locator, Command.operand, inIndex_of_plain rfl]; rfl
  | some l =>
      rw [Command.locator, Command.operand, inIndex_of_code rfl]
      exact congrArg some (unquote_inQuotes l)

theorem resolve_of_plain {e : String} (code : c.code = ["verify", inQuotes e]) :
    c.resolve keywords = c := by
  rw [Command.resolve, inIndex_of_plain code]

theorem fillings_of_code {e l : String} (code : c.code = ["verify", inQuotes e, "in", inQuotes l]) :
    c.fillings = [l] := by
  have verb : c.verb = some "verify" := by rw [Command.verb, code]; rfl
  have bare : Command.isQuoted "verify" = false ∧ Command.isQuoted "in" = false := by decide
  rw [Command.fillings, verb]
  simp [Command.quotedLiterals, code, bare, isQuoted_inQuotes, unquote_inQuotes]

theorem resolve_of_code {e l : String} (code : c.code = ["verify", inQuotes e, "in", inQuotes l])
    (located : c.verifyLocator.isSome) : c.resolve keywords =
      match named? keywords l with
      | none => c
      | some xpath =>
        { c with code := ["verify", inQuotes e, "in", xpath], verifyLocator := some xpath } := by
  have two := inIndex_of_code code
  have verb : c.isVerify := by rw [Command.isVerify, Command.verb, code]; rfl
  have operand : c.code[2 + 1]? = some (inQuotes l) := by rw [code]; rfl
  have whole : { c with code := c.code.take (2 + 2) } = c := by
    rw [code]
    obtain ⟨line, words, src, timeout⟩ := c
    obtain rfl := code
    rfl
  have filled := fillings_of_code code
  simp only [Command.resolve, two, operand, unquote_inQuotes, verb, if_true, whole, named?]
  split
  · rfl
  · cases keywords.lookup l with
    | none => rfl
    | some k =>
        simp only [Option.map_some, filled, located, Bool.and_self, if_true, code]
        rfl

/-- A statement in the words of a command. -/
def VerifyStatement.normalForm (keywords : KeywordSet) (v : VerifyStatement) : List String :=
  ["verify", inQuotes v.expected] ++
    match v.locator with
    | some l => [Command.connective, (named? keywords l).getD (inQuotes l)]
    | none => []

/-- The locator with a keyword in place of its name. -/
def VerifyStatement.element (keywords : KeywordSet) (v : VerifyStatement) : Option String :=
  v.locator.map fun l => (named? keywords l).getD l

theorem resolve_applyTo (v : VerifyStatement) (c : Command) (keywords : KeywordSet) :
    (v.applyTo c).resolve keywords =
      { v.applyTo c with
        code := v.normalForm keywords
        verifyLocator := v.element keywords } := by
  obtain ⟨subject, operator, expected, locator, target⟩ := v
  cases locator with
  | none => exact resolve_of_plain rfl
  | some l =>
      rw [resolve_of_code (l := l) rfl rfl]
      simp only [VerifyStatement.normalForm, VerifyStatement.element, Option.map_some]
      cases named? keywords l <;> rfl

/-- A locator that names no keyword stays as it is. -/
theorem resolve_of_unnamed (c : Command) (unnamed : ∀ l ∈ v.locator, named? keywords l = none) :
    (v.applyTo c).resolve keywords = v.applyTo c := by
  obtain ⟨subject, operator, expected, locator, target⟩ := v
  cases locator with
  | none => exact resolve_of_plain rfl
  | some l => rw [resolve_of_code (l := l) rfl rfl, unnamed l rfl]

/-- The command of a line that verifies, once its statement is known. -/
theorem eq_of_statement (read : parseLine? keywords timeout line text = some c)
    (verify : c.isVerify) (parsed : VerifyStatement.parse? c.src = some v) :
    c = { v.applyTo { line, code := [], src := c.src, timeout } with
      code := v.normalForm keywords
      verifyLocator := v.element keywords } := by
  unfold parseLine? at read
  split at read
  · cases read
  · obtain rfl := Option.some.inj read
    obtain ⟨whole, -⟩ := readLine_statement line timeout (Text.trim text)
    obtain ⟨source, -, same⟩ := resolve_statement (readLine line timeout (Text.trim text)) keywords
    rw [source, whole] at parsed ⊢
    rw [same] at verify
    rw [readLine_of_statement parsed verify]
    exact resolve_applyTo ..

/-- The element of a command is that of its statement. -/
theorem locator_of_normalForm (code : c.code = v.normalForm keywords)
    (locator : c.verifyLocator = v.element keywords) :
    (c.verifyLocator <|> c.locator) = v.element keywords := by
  rw [locator]
  cases located : v.locator with
  | some l => simp [VerifyStatement.element, located]
  | none =>
      have unlocated : c.inIndex = none :=
        inIndex_of_plain (code.trans (by rw [VerifyStatement.normalForm, located]; rfl))
      simp [VerifyStatement.element, located, Command.locator, Command.operand, unlocated]

/-! ## Lines that start with the verb -/

theorem parseLine?_of_trimmed (keywords : KeywordSet) (timeout line : Nat)
    (trimmed : Text.trim text = text) (ne : text ≠ []) :
    parseLine? keywords timeout line text =
      some ((readLine line timeout text).resolve keywords) := by
  rw [parseLine?, trimmed]
  cases text with
  | nil => exact absurd rfl ne
  | cons c cs => rfl

theorem readLine_of_verb {cs : List Char} (split : src = "verify".toList ++ ' ' :: cs)
    (parsed : VerifyStatement.parse? (String.ofList src) = some v) : readLine line timeout src =
      v.applyTo { line, code := [], src := String.ofList src, timeout } := by
  have small : Text.lowered (String.ofList "verify".toList) = "verify" := by decide +kernel
  have taken : words src = "verify".toList :: words (' ' :: cs) :=
    split ▸ words_of_run (by decide) (by decide) (by decide) cs
  have plain : bullet? src = none := by rw [split]; rfl
  rw [readLine, plain, taken]
  simp only [takeWords, small, parsed]
  rfl

end BrowserScript.Script
