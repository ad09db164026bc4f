import BrowserScript.Proofs.Script.ActionLine
import BrowserScript.Proofs.Text.Pieces

/-!
Bullet lines. The words of a bullet are put into the command as they stand, also a value that is
the connective itself: then the locator is looked for in its place, and there is no value.
-/

namespace BrowserScript.Script

variable {field value : List Char}

theorem bulletParts_of_part {cs w rest : List Char} (read : bulletPart? cs = some (w, rest)) :
    bulletParts cs = w :: bulletParts rest := by
  cases cs with
  | nil => cases read
  | cons c cs =>
      rw [bulletParts]
      split
      · next w' rest' read' =>
          obtain ⟨rfl, rfl⟩ := Prod.mk.inj (Option.some.inj (read'.symm.trans read))
          rfl
      · next none => cases none.symm.trans read

/-- The field ends at the first colon, the value at the end of the line. -/
theorem bullet?_of_parts (someField : field ≠ []) (colon : ':' ∉ field) (someValue : value ≠ [])
    (unbroken : '\n' ∉ value) :
    bullet? ('*' :: field ++ ':' :: value) =
      some ["type", String.ofList (Text.trim value), "in", String.ofList (Text.trim field)] := by
  obtain ⟨f, fs, rfl⟩ := List.exists_cons_of_ne_nil someField
  obtain ⟨v, vs, rfl⟩ := List.exists_cons_of_ne_nil someValue
  have inField : ∀ c ∈ f :: fs, (c != ':') = true := fun c there =>
    bne_iff_ne.mpr fun same => colon (same ▸ there)
  have inValue : ∀ c ∈ v :: vs, (c != '\n') = true := fun c there =>
    bne_iff_ne.mpr fun same => unbroken (same ▸ there)
  obtain ⟨firstField, restField⟩ := List.forall_mem_cons.mp inField
  obtain ⟨firstValue, restValue⟩ := List.forall_mem_cons.mp inValue
  have first : bulletPart? ('*' :: f :: (fs ++ ':' :: v :: vs)) =
      some (f :: fs, ':' :: v :: vs) := by
    rw [bulletPart?, if_neg (by simpa using firstField), run,
      List.takeWhile_append_of_pos restField, List.dropWhile_append_of_pos restField]
    simp
  have second : bulletPart? (':' :: v :: vs) = some (v :: vs, []) := by
    rw [bulletPart?, if_neg (by simpa using firstValue), run,
      List.takeWhile_eq_self_iff.mpr restValue, List.dropWhile_eq_nil_iff.mpr restValue]
  rw [List.cons_append, List.cons_append, bullet?, bulletParts_of_part first,
    bulletParts_of_part second]

/-- A bullet line, whatever blanks stand at its ends. -/
theorem parseLine?_bullet (keywords : KeywordSet) (timeout line : Nat) {bs : List Char}
    (blank : ∀ b ∈ bs, Text.isBlank b) (colon : ':' ∉ field) (unbroken : '\n' ∉ value)
    (someField : Text.trim field ≠ []) (someValue : Text.trim value ≠ []) :
    ∃ src, parseLine? keywords timeout line (bs ++ '*' :: field ++ ':' :: value) =
      some (Command.resolve { line, timeout, src, code := ["type",
        String.ofList (Text.trim value), "in", String.ofList (Text.trim field)] } keywords) := by
  obtain ⟨ds, d, after, rfl, solid, blanks⟩ := Text.exists_last_solid someValue
  have core : Text.trim ('*' :: field ++ ':' :: (ds ++ [d])) =
      '*' :: field ++ ':' :: (ds ++ [d]) := by
    have last : ('*' :: field ++ ':' :: (ds ++ [d])).getLast? = some d := by
      rw [← List.cons_append, ← List.append_assoc, List.getLast?_concat]
    exact Text.trim_of_ends (c := '*') rfl (by decide) last solid
  have trimmed : Text.trim (bs ++ '*' :: field ++ ':' :: (ds ++ d :: after)) =
      '*' :: field ++ ':' :: (ds ++ [d]) := by
    have split : bs ++ '*' :: field ++ ':' :: (ds ++ d :: after) =
        bs ++ ('*' :: field ++ ':' :: (ds ++ [d]) ++ after) := by simp
    rw [split, Text.trim_blanks_append blank, Text.trim_append_blanks blanks, core]
  have same : Text.trim (ds ++ d :: after) = Text.trim (ds ++ [d]) := by
    rw [List.append_cons, Text.trim_append_blanks blanks]
  have named : field ≠ [] := by
    rintro rfl
    exact someField rfl
  have whole : '\n' ∉ ds ++ [d] := by
    rw [List.append_cons] at unbroken
    exact fun there => unbroken (List.mem_append_left _ there)
  have read := bullet?_of_parts named colon (by simp) whole
  refine ⟨String.ofList ('*' :: field ++ ':' :: (ds ++ [d])), ?_⟩
  rw [List.cons_append] at trimmed read ⊢
  rw [parseLine?, trimmed, same]
  simp only [readLine, read]

section Code

variable {c : Command} {keywords : KeywordSet} {f v x : String}

theorem unquote_of_bare (bare : Command.isQuoted x = false) : Command.unquote x = x := by
  rw [Command.unquote, bare]
  rfl

theorem inIndex_bullet (code : c.code = ["type", v, "in", f]) (other : v ≠ "in") :
    c.inIndex = some 2 := by
  have free : Command.connective ∉ ["type", v] := by
    simpa [Command.connective] using other.symm
  exact inIndex_of_split free code

theorem resolve_bullet (code : c.code = ["type", v, "in", f]) (other : v ≠ "in")
    (bare : Command.isQuoted f = false) (unnamed : keywords.lookup f = none) :
    c.resolve keywords = c := by
  have verb : c.isVerify = false := by simp [Command.isVerify, Command.verb, code]
  have operand : c.code[2 + 1]? = some f := by rw [code]; rfl
  simp only [Command.resolve, inIndex_bullet code other, operand, verb, unquote_of_bare bare,
    unnamed, Bool.false_eq_true, if_false, ite_self]

theorem action_bullet (code : c.code = ["type", v, "in", f]) (other : v ≠ "in")
    (bareField : Command.isQuoted f = false) (bareValue : Command.isQuoted v = false)
    (some : f.toList ≠ []) : c.action = .ok (.type f v) := by
  have locator : c.locator = .some f := by
    simp [Command.locator, Command.operand, inIndex_bullet code other, code,
      unquote_of_bare bareField]
  have value : c.value = .some v := by
    simp [Command.value, code, Command.connective, other, unquote_of_bare bareValue]
  rw [Command.action, verb_of_code code]
  simp only [neededLocator_of_locator locator some, value]
  rfl

/-- A keyword can take the place of the word that is taken for the locator. -/
theorem resolve_connective (code : c.code = ["type", "in", x, f]) (keywords : KeywordSet) :
    ∃ y, (c.resolve keywords).code = ["type", "in", y, f] := by
  have free : Command.connective ∉ ["type"] := by decide
  have index : c.inIndex = some 1 := inIndex_of_split free code
  have verb : c.isVerify = false := by simp [Command.isVerify, Command.verb, code]
  simp only [Command.resolve, index, code, verb]
  simp only [List.getElem?_cons_succ, List.getElem?_cons_zero]
  split
  · exact ⟨x, code⟩
  split
  · exact ⟨x, code⟩
  · simp [code]

theorem action_connective (code : c.code = ["type", "in", x, f]) : ∃ e, c.action = .error e := by
  have value : c.value = none := by simp [Command.value, code, Command.connective]
  rw [Command.action, verb_of_code code]
  simp only [value]
  cases c.neededLocator "type" with
  | error e => exact ⟨e, rfl⟩
  | ok l => exact ⟨.missingValue "type", rfl⟩

end Code

/-- A bullet line types its value into its field unless the value is the connective: then it has
no value. -/
theorem action_of_bulletLine {keywords : KeywordSet} {bs : List Char} (timeout line : Nat)
    (blank : ∀ b ∈ bs, Text.isBlank b) (colon : ':' ∉ field) (unbroken : '\n' ∉ value)
    (someField : Text.trim field ≠ []) (someValue : Text.trim value ≠ [])
    (bareField : Command.isQuoted (String.ofList (Text.trim field)) = false)
    (bareValue : Command.isQuoted (String.ofList (Text.trim value)) = false)
    (unnamed : keywords.lookup (String.ofList (Text.trim field)) = none) :
    ∃ c, parseLine? keywords timeout line (bs ++ '*' :: field ++ ':' :: value) = some c ∧
      (c.action = .ok (.type (String.ofList (Text.trim field)) (String.ofList (Text.trim value))) ↔
        String.ofList (Text.trim value) ≠ Command.connective) ∧
      (String.ofList (Text.trim value) = Command.connective → ∃ e, c.action = .error e) := by
  obtain ⟨src, read⟩ := parseLine?_bullet keywords timeout line blank colon unbroken someField
    someValue
  refine ⟨_, read, ?_⟩
  generalize named : String.ofList (Text.trim field) = f at *
  generalize valued : String.ofList (Text.trim value) = v at *
  have some : f.toList ≠ [] := by
    rwa [← named, String.toList_ofList]
  by_cases connective : v = Command.connective
  · subst connective
    obtain ⟨y, code⟩ := resolve_connective (c := { line, timeout, src, code := _ }) rfl keywords
    obtain ⟨e, fails⟩ := action_connective code
    refine ⟨⟨fun types => ?_, fun other => absurd rfl other⟩, fun _ => ⟨e, fails⟩⟩
    cases fails.symm.trans types
  · refine ⟨⟨fun _ => connective, fun _ => ?_⟩, fun same => absurd same connective⟩
    rw [resolve_bullet rfl connective bareField unnamed]
    exact action_bullet rfl connective bareField bareValue some

/-- A bullet line with words of the language in its field and its value, and one whose value is the
connective. -/
theorem action_of_bulletLine_words :
    (∃ c, parseLine? { shared := [⟨"Name", "//input", false⟩] } 5000 3
        ([' '] ++ '*' :: " Verify in ".toList ++ ':' :: " click 'ok' in: it ".toList) = some c ∧
      c.action = .ok (.type "Verify in" "click 'ok' in: it")) ∧
      ∃ c e, parseLine? {} 5000 0 "* City: in".toList = some c ∧ c.action = .error e := by
  constructor
  · have blank : ∀ b ∈ [' '], Text.isBlank b := by decide
    have colon : ':' ∉ " Verify in ".toList := by decide
    have unbroken : '\n' ∉ " click 'ok' in: it ".toList := by decide
    obtain ⟨c, read, types, -⟩ := action_of_bulletLine 5000 3 blank colon unbroken (by decide)
      (by decide) (by decide) (by decide)
      (show ({ shared := [⟨"Name", "//input", false⟩] } : KeywordSet).lookup _ = none by decide)
    exact ⟨c, read, types.mpr (by decide)⟩
  · have blank : ∀ b ∈ ([] : List Char), Text.isBlank b := by decide
    have colon : ':' ∉ " City".toList := by decide
    have unbroken : '\n' ∉ " in".toList := by decide
    obtain ⟨c, read, -, fails⟩ := action_of_bulletLine 5000 0 blank colon unbroken (by decide)
      (by decide) (by decide) (by decide) (show ({} : KeywordSet).lookup _ = none by decide)
    obtain ⟨e, fails⟩ := fails (by decide)
    exact ⟨c, e, read, fails⟩

end BrowserScript.Script
