import BrowserScript.Proofs.Script.Placement
import BrowserScript.Verification.Board

/-!
The verify commands of a script are known on the board: whatever a line says, its command knows
the line it came from, and a verify command what it looks at.
-/

namespace BrowserScript.Script

open Block

variable {c : Command} {keywords : KeywordSet} {timeout line : Nat} {text : List Char}

/-- A verify command knows what it looks at. -/
def Typed (c : Command) : Prop := c.isVerify → c.verifyType.isSome

theorem isVerify_push (c : Command) (word : String) :
    (c.push word).isVerify = if c.code = [] then word == "verify" else c.isVerify := by
  obtain ⟨line, code, src, timeout⟩ := c
  cases code <;> rfl

theorem Typed.push (typed : Typed c) {word : String} (other : word ≠ "verify") :
    Typed (c.push word) := by
  intro verify
  rw [isVerify_push] at verify
  split at verify
  · exact absurd (eq_of_beq verify) other
  · exact typed verify

theorem Typed.push_push (typed : Typed c) {word : String} (other : word ≠ "verify")
    (next : String) : Typed ((c.push word).push next) := by
  intro verify
  have begun : (c.push word).code ≠ [] := by simp [Command.push]
  rw [isVerify_push, if_neg begun] at verify
  exact typed.push other verify

theorem Typed.pushConnective (typed : Typed c) :
    Typed { c with code := pushConnective c.code } := by
  intro verify
  refine typed ?_
  obtain ⟨line, code, src, timeout⟩ := c
  cases code with
  | nil => exact absurd verify (by simp [Script.pushConnective, Command.isVerify, Command.verb])
  | cons first rest =>
      unfold Script.pushConnective at verify
      split at verify
      · exact verify
      · split at verify <;> exact verify

theorem ne_verify_of_startsLiteral {w : List Char} (literal : startsLiteral w) :
    String.ofList w ≠ "verify" := by
  intro eq
  have same : w = ['v', 'e', 'r', 'i', 'f', 'y'] := by simpa using congrArg String.toList eq
  rw [same] at literal
  exact absurd literal (by decide)

theorem typed_takeWords (unread : Bool) (ws : List (List Char)) (typed : Typed c) :
    Typed (takeWords unread c ws) := by
  have word_ne {w : String} (other : w ≠ "verify") {word : String} (eq : word == w) :
      word ≠ "verify" := eq_of_beq eq ▸ other
  fun_induction takeWords unread c ws with
  | case1 => exact typed.push (by decide)
  | case2 => exact typed
  | case3 _ _ _ _ literal ih => exact ih (typed.push (ne_verify_of_startsLiteral literal))
  | case4 _ _ _ _ _ word click ih => exact ih (typed.push_push (word_ne (by decide) click) _)
  | case5 _ _ _ _ word _ wait ih => exact ih (typed.push (word_ne (by decide) wait))
  | case6 _ _ _ _ word _ wait delay _ ih => exact ih (typed.push_push (word_ne (by decide) wait) _)
  | case7 _ _ _ _ _ word _ _ plain ih =>
      refine ih (typed.push ?_)
      rintro eq
      rw [eq] at plain
      exact absurd plain (by decide)
  | case8 _ _ _ _ _ word _ _ _ _ ih => exact ih typed.pushConnective
  | case9 => exact fun _ => rfl
  | case10 _ _ _ _ _ word _ _ _ _ _ _ ih => exact ih fun _ => rfl
  | case11 _ _ _ _ _ word _ _ _ _ _ ih => exact ih typed

theorem src_takeWords (unread : Bool) (c : Command) (ws : List (List Char)) :
    (takeWords unread c ws).src = c.src := by
  fun_induction takeWords unread c ws <;>
    simp_all [Command.push, pushVerify, VerifyStatement.applyTo]

/-! ## Keywords -/

theorem resolve_statement (c : Command) (keywords : KeywordSet) :
    (c.resolve keywords).src = c.src ∧ (c.resolve keywords).verifyType = c.verifyType ∧
      (c.resolve keywords).isVerify = c.isVerify := by
  have cut (i : Nat) : (c.code.take (i + 2)).head? = c.code.head? := by
    cases c.code <;> rfl
  have filled (code : List String) (i : Nat) (xpath : String) :
      (code.set (i + 1) xpath).head? = code.head? := by
    cases code <;> rfl
  simp only [Command.resolve]
  repeat' split
  all_goals simp_all [Command.isVerify, Command.verb]

theorem isVerify_of_bullet {src : List Char} {code : List String} (bullet : bullet? src = some code)
    (same : c.code = code) : c.isVerify = false := by
  unfold bullet? at bullet
  split at bullet
  · split at bullet
    · cases bullet
      simp [Command.isVerify, Command.verb, same]
    · cases bullet
  · cases bullet

theorem readLine_statement (line timeout : Nat) (src : List Char) :
    (readLine line timeout src).src = String.ofList src ∧ Typed (readLine line timeout src) := by
  unfold readLine
  split
  · rename_i code bullet
    refine ⟨rfl, fun verify => ?_⟩
    rw [isVerify_of_bullet bullet rfl] at verify
    cases verify
  · exact ⟨src_takeWords .., typed_takeWords _ _ fun verify => absurd verify Bool.false_ne_true⟩

/-- The command of a line knows the line, which is not empty. -/
theorem parseLine?_statement (read : parseLine? keywords timeout line text = some c) :
    c.src ≠ "" ∧ Typed c := by
  unfold parseLine? at read
  split at read
  · cases read
  · rename_i notBlank
    cases read
    obtain ⟨whole, typed⟩ := readLine_statement line timeout (Text.trim text)
    obtain ⟨source, type, verify⟩ :=
      resolve_statement (readLine line timeout (Text.trim text)) keywords
    refine ⟨?_, ?_⟩
    · rw [source, whole]
      intro empty
      exact notBlank (by simpa using congrArg String.toList empty)
    · rw [Typed, type, verify]
      exact typed

/-! ## The commands of a tree -/

theorem mem_entries {es : List Entry} (there : c ∈ preorderAll (forest none es)) :
    ∃ e ∈ es, ∃ parent, c = placed parent e.command := by
  rw [preorderAll_forest_eq_mapIdx] at there
  obtain ⟨i, inside, rfl⟩ := List.mem_mapIdx.mp there
  exact ⟨es[i], List.getElem_mem inside, _, rfl⟩

theorem placed_statement (parent : Option Command) (c : Command) :
    (placed parent c).src = c.src ∧ (placed parent c).verifyType = c.verifyType ∧
      (placed parent c).isVerify = c.isVerify := by
  obtain ⟨header, placed⟩ := exists_placed parent c
  rw [placed]
  exact ⟨rfl, rfl, rfl⟩

theorem entries_statement {script : String} {e : Entry}
    (there : e ∈ entries keywords timeout script) : e.command.src ≠ "" ∧ Typed e.command := by
  have listed := List.mem_map_of_mem (f := fun e : Entry => (e.indent, some e.command)) there
  rw [entries_eq] at listed
  obtain ⟨l, -, eq⟩ := List.mem_map.mp listed
  exact parseLine?_statement (Prod.mk.inj eq).2

/-- Every verify command of a script has a key on the board. -/
theorem key_of_parse {script : String}
    (there : c ∈ preorderAll (parse keywords timeout script)) (verify : c.isVerify) :
    ∃ key, Board.key? c = some key := by
  rw [parse_eq_forest] at there
  obtain ⟨e, mem, parent, rfl⟩ := mem_entries there
  obtain ⟨source, typed⟩ := entries_statement mem
  obtain ⟨sameSource, sameType, sameVerb⟩ := placed_statement parent e.command
  rw [sameVerb] at verify
  obtain ⟨t, known⟩ := Option.isSome_iff_exists.mp (typed verify)
  refine ⟨t.word ++ ":" ++ e.command.src, ?_⟩
  rw [Board.key?, sameSource, sameType, known, if_neg (by simpa using source)]
  rfl

end BrowserScript.Script
