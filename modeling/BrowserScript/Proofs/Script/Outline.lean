import BrowserScript.Proofs.Script.Statement
import BrowserScript.Proofs.Text.Pieces

/-!
A script written out from its tree: one command a line, indented by as many spaces as it is deep.
It has the same tree, apart from the numbers of the lines. Two things make it so: reading by
indentation undoes indenting by depth, and a line is read alone, whatever stands around it.
-/

namespace BrowserScript

/-- The same command on another line. -/
def Command.numbered (c : Command) (n : Nat) : Command := { c with line := n }

namespace Block

mutual

/-- The lines of a block that stands so deep. -/
def outline (depth : Nat) : Block → List (List Char)
  | .node c body => (List.replicate depth ' ' ++ c.src.toList) :: outlineAll (depth + 1) body

def outlineAll (depth : Nat) : List Block → List (List Char)
  | [] => []
  | b :: rest => outline depth b ++ outlineAll depth rest

end

mutual

/-- The same block, its commands counted from `n` in script order. -/
def renumber (n : Nat) : Block → Block
  | .node c body => .node (c.numbered n) (renumberAll (n + 1) body)

def renumberAll (n : Nat) : List Block → List Block
  | [] => []
  | b :: rest => renumber n b :: renumberAll (n + size b) rest

end

mutual

theorem length_preorder : (b : Block) → (preorder b).length = size b
  | .node _ body => by rw [preorder, size, List.length_cons, length_preorderAll body, Nat.add_comm]

theorem length_preorderAll : (bs : List Block) → (preorderAll bs).length = sizeAll bs
  | [] => rfl
  | b :: rest => by
      rw [preorderAll, sizeAll, List.length_append, length_preorder b, length_preorderAll rest]

end

mutual

theorem preorder_renumber (n : Nat) : (b : Block) →
    preorder (renumber n b) = (preorder b).mapIdx fun i c => c.numbered (n + i)
  | .node c body => by
      rw [renumber, preorder, preorder, List.mapIdx_cons, preorderAll_renumberAll (n + 1) body]
      simp [Nat.add_comm, Nat.add_left_comm]

/-- A command is counted by its place in the listing. -/
theorem preorderAll_renumberAll (n : Nat) : (bs : List Block) →
    preorderAll (renumberAll n bs) = (preorderAll bs).mapIdx fun i c => c.numbered (n + i)
  | [] => rfl
  | b :: rest => by
      rw [renumberAll, preorderAll, preorderAll, List.mapIdx_append, preorder_renumber n b,
        preorderAll_renumberAll (n + size b) rest, length_preorder]
      simp [Nat.add_comm, Nat.add_left_comm]

end

end Block

namespace Script

open Block

/-! ## Indentation by depth -/

mutual

/-- The entries of the lines of a block, the first line having the number `n`. -/
def laid (depth n : Nat) : Block → List Entry
  | .node c body =>
    ⟨depth, { c.numbered n with header := none }⟩ :: laidAll (depth + 1) (n + 1) body

def laidAll (depth n : Nat) : List Block → List Entry
  | [] => []
  | b :: rest => laid depth n b ++ laidAll depth (n + size b) rest

end

mutual

theorem le_indent_of_laid {e : Entry} {depth n : Nat} : {b : Block} → e ∈ laid depth n b →
    depth ≤ e.indent
  | .node c body, there => by
      rcases List.mem_cons.mp there with rfl | there
      · exact Nat.le_refl depth
      · exact Nat.le_of_succ_le (le_indent_of_laidAll there)

theorem le_indent_of_laidAll {e : Entry} {depth n : Nat} : {bs : List Block} →
    e ∈ laidAll depth n bs → depth ≤ e.indent
  | b :: rest, there => by
      rcases List.mem_append.mp there with there | there
      · exact le_indent_of_laid there
      · exact le_indent_of_laidAll there

end

section Split

variable (depth n m : Nat) (below rest : List Block)

theorem deeper_laidAll : deeper depth (laidAll depth m rest) = [] := by
  cases rest with
  | nil => rfl
  | cons b rest =>
      obtain ⟨c, body⟩ := b
      exact deeper_cons_of_le _ (Nat.le_refl depth)

/-- The lines of a body are the ones that are indented further, the next block is not. -/
theorem deeper_laid :
    deeper depth (laidAll (depth + 1) n below ++ laidAll depth m rest) =
      laidAll (depth + 1) n below := by
  have inside : ∀ e ∈ laidAll (depth + 1) n below, decide (depth < e.indent) :=
    fun _ there => decide_eq_true (le_indent_of_laidAll there)
  have outside := deeper_laidAll depth m rest
  unfold deeper at outside ⊢
  rw [List.takeWhile_append_of_pos inside, outside, List.append_nil]

theorem beyond_laid :
    beyond depth (laidAll (depth + 1) n below ++ laidAll depth m rest) = laidAll depth m rest := by
  have whole := deeper_append_beyond depth (laidAll (depth + 1) n below ++ laidAll depth m rest)
  rw [deeper_laid] at whole
  exact List.append_cancel_left whole

end Split

theorem code_placed (parent : Option Command) (c : Command) : (placed parent c).code = c.code := by
  obtain ⟨header, placed⟩ := exists_placed parent c
  rw [placed]

/-- Of the command above only the words count. -/
theorem placed_congr {p q : Option Command} (same : p.map Command.code = q.map Command.code)
    (c : Command) : placed p c = placed q c := by
  cases p with
  | none =>
      cases q with
      | none => rfl
      | some q => cases same
  | some p =>
      cases q with
      | none => cases same
      | some q =>
          have code : p.code = q.code := Option.some.inj same
          rw [placed, placed, Command.verb, Command.verb, Command.quotedLiterals,
            Command.quotedLiterals, code]

theorem placed_again (parent : Option Command) {c : Command} (bare : c.header = none) (n : Nat) :
    placed parent { (placed parent c).numbered n with header := none } =
      (placed parent c).numbered n := by
  cases parent with
  | none => simp [placed, Command.numbered, bare]
  | some p =>
      by_cases under : p.verb == some "under"
      · simp [placed, Command.numbered, under]
      · simp [placed, Command.numbered, under, bare]

/-- Entries that are indented by their depth make the blocks they come from. -/
theorem forest_laidAll {es : List Entry} {parent parent' : Option Command}
    (bare : ∀ e ∈ es, e.command.header = none)
    (same : parent'.map Command.code = parent.map Command.code) (depth n : Nat) :
    forest parent' (laidAll depth n (forest parent es)) = renumberAll n (forest parent es) := by
  fun_induction forest parent es generalizing parent' depth n with
  | case1 => rw [laidAll, forest, renumberAll]
  | case2 parent e es ihBelow ihRest =>
      obtain ⟨first, bare⟩ := List.forall_mem_cons.mp bare
      have whole := deeper_append_beyond e.indent es
      have code : Option.map Command.code
          (some { (placed parent e.command).numbered n with header := none }) =
            some e.command.code := congrArg some (code_placed parent e.command)
      have below := ihBelow (fun d there => bare d (whole ▸ List.mem_append_left _ there)) code
        (depth + 1) (n + 1)
      have rest (m : Nat) :=
        ihRest (fun d there => bare d (whole ▸ List.mem_append_right _ there)) same depth m
      rw [laidAll, laid, List.cons_append, forest, deeper_laid, beyond_laid, below, rest,
        renumberAll, renumber, placed_congr same, placed_again parent first]

/-! ## A line is read alone -/

theorem takeWords_numbered (n : Nat) (unread : Bool) (c : Command) : (ws : List (List Char)) →
    takeWords unread (c.numbered n) ws = (takeWords unread c ws).numbered n
  | [] => by
      rw [takeWords, takeWords, apply_ite (Command.numbered · n)]
      rfl
  | w :: ws => by
      have step (unread : Bool) (c : Command) := takeWords_numbered n unread c ws
      rw [takeWords, takeWords]
      dsimp only
      split
      · exact step unread (c.push _)
      split
      · exact step unread ((c.push _).push _)
      split
      · cases ws with
        | nil => exact step unread (c.push _)
        | cons d ws => exact takeWords_numbered n unread ((c.push _).push _) ws
      split
      · exact step unread (c.push _)
      split
      · exact step unread { c with code := pushConnective c.code }
      split
      · have same : VerifyStatement.parse? (c.numbered n).src = VerifyStatement.parse? c.src := rfl
        rw [same]
        cases VerifyStatement.parse? c.src with
        | some v => rfl
        | none => exact step true (pushVerify c)
      · exact step unread c
termination_by ws => ws.length

theorem readLine_numbered (line n timeout : Nat) (src : List Char) :
    readLine n timeout src = (readLine line timeout src).numbered n := by
  unfold readLine
  split
  · rfl
  · exact takeWords_numbered n false { line, code := [], src := String.ofList src, timeout } _

theorem resolve_numbered (c : Command) (n : Nat) (keywords : KeywordSet) :
    (c.numbered n).resolve keywords = (c.resolve keywords).numbered n := by
  obtain ⟨line, code, src, timeout, _, _, _, _, _, _⟩ := c
  simp only [Command.resolve, Command.numbered, Command.inIndex, Command.isVerify, Command.verb]
  split
  · rfl
  split
  · rfl
  by_cases verify : (code.head? == some "verify") = true
  all_goals
    simp only [verify, Bool.false_eq_true, if_true, if_false]
    split
    · rfl
    split
    · rfl
    split <;> rfl

/-- A line that is the source of the command is read as this command, whatever its number and
however far it is indented. Only the heading is left to others. -/
structure ReadAlone (keywords : KeywordSet) (timeout : Nat) (c : Command) : Prop where
  solid : ∃ x rest, c.src.toList = x :: rest ∧ ¬ Text.isBlank x
  unbroken : '\n' ∉ c.src.toList
  read : ∀ n bs, (∀ b ∈ bs, Text.isBlank b) →
    parseLine? keywords timeout n (bs ++ c.src.toList) = some { c.numbered n with header := none }

variable {keywords : KeywordSet} {timeout line : Nat} {text : List Char} {c : Command}

theorem readAlone_of_parseLine? (read : parseLine? keywords timeout line text = some c)
    (unbroken : '\n' ∉ text) : ReadAlone keywords timeout c := by
  have bare : c.header = none := (parseLine?_place read).2
  cases trimmed : Text.trim text with
  | nil => simp [parseLine?, trimmed] at read
  | cons x rest =>
      have whole : (readLine line timeout (x :: rest)).resolve keywords = c := by
        simpa [parseLine?, trimmed] using read
      have src : c.src.toList = Text.trim text := by
        rw [← whole, (resolve_statement _ _).1, (readLine_statement _ _ _).1, trimmed,
          String.toList_ofList]
      refine ⟨⟨x, rest, src.trans trimmed, ?_⟩, ?_, fun n bs blank => ?_⟩
      · exact Text.solid_of_head_trim (by rw [trimmed, List.head?_cons])
      · exact fun there => unbroken (Text.mem_of_mem_trim (src ▸ there))
      · have again : Text.trim (bs ++ c.src.toList) = x :: rest := by
          rw [src, Text.trim_blanks_append_trim blank, trimmed]
        simp only [parseLine?, again]
        rw [readLine_numbered line, resolve_numbered, whole]
        exact congrArg some (by rw [Command.numbered, bare])

theorem ReadAlone.placed (alone : ReadAlone keywords timeout c) (parent : Option Command) :
    ReadAlone keywords timeout (placed parent c) := by
  have same (n : Nat) : { (Script.placed parent c).numbered n with header := none } =
      { c.numbered n with header := none } := by
    obtain ⟨header, placed⟩ := exists_placed parent c
    rw [placed]
    rfl
  have src : (Script.placed parent c).src = c.src := (placed_statement parent c).1
  refine ⟨src ▸ alone.solid, src ▸ alone.unbroken, fun n bs blank => ?_⟩
  rw [src, alone.read n bs blank, same]

theorem readAlone_of_entries {script : String} {e : Entry}
    (there : e ∈ entries keywords timeout script) : ReadAlone keywords timeout e.command := by
  have listed := List.mem_map_of_mem (f := fun e : Entry => (e.indent, some e.command)) there
  rw [entries_eq] at listed
  obtain ⟨l, mem, eq⟩ := List.mem_map.mp listed
  refine readAlone_of_parseLine? (Prod.mk.inj eq).2 ?_
  have line : l.1 ∈ Text.splitOn '\n' script.toList :=
    List.fst_mem_of_mem_zipIdx (List.mem_filter.mp mem).1
  exact Text.notMem_of_mem_splitOn line

/-- The commands of a script are read from their sources alone. -/
theorem readAlone_of_parse {script : String}
    (there : c ∈ preorderAll (parse keywords timeout script)) : ReadAlone keywords timeout c := by
  rw [parse_eq_forest] at there
  obtain ⟨e, mem, parent, rfl⟩ := mem_entries there
  exact (readAlone_of_entries mem).placed parent

/-! ## The script of a tree -/

/-- One command a line, indented by its depth. -/
def written (tree : List Block) : String :=
  String.ofList (List.intercalate ['\n'] (outlineAll 0 tree))

theorem ReadAlone.indent (alone : ReadAlone keywords timeout c) (depth : Nat) :
    indent (List.replicate depth ' ' ++ c.src.toList) = depth := by
  obtain ⟨x, rest, src, solid⟩ := alone.solid
  have blank : ∀ b ∈ List.replicate depth ' ', Text.isBlank b := by
    intro b there
    rw [List.eq_of_mem_replicate there]
    rfl
  rw [Script.indent, List.takeWhile_append_of_pos blank, src, List.takeWhile_cons_of_neg solid,
    List.append_nil, List.length_replicate]

mutual

theorem unbroken_outline {l : List Char} {depth : Nat} : {b : Block} →
    (∀ c ∈ preorder b, ReadAlone keywords timeout c) → l ∈ outline depth b → '\n' ∉ l
  | .node c body, alone, there => by
      obtain ⟨first, alone⟩ := List.forall_mem_cons.mp alone
      rcases List.mem_cons.mp there with rfl | there
      · simp [first.unbroken]
      · exact unbroken_outlineAll alone there

theorem unbroken_outlineAll {l : List Char} {depth : Nat} : {bs : List Block} →
    (∀ c ∈ preorderAll bs, ReadAlone keywords timeout c) → l ∈ outlineAll depth bs → '\n' ∉ l
  | b :: rest, alone, there => by
      obtain ⟨first, alone⟩ := List.forall_mem_append.mp alone
      rcases List.mem_append.mp there with there | there
      · exact unbroken_outline first there
      · exact unbroken_outlineAll alone there

end

mutual

theorem entriesFrom_outline {depth n : Nat} {after : List (List Char)} : {b : Block} →
    (∀ c ∈ preorder b, ReadAlone keywords timeout c) →
      entriesFrom keywords timeout n (outline depth b ++ after) =
        laid depth n b ++ entriesFrom keywords timeout (n + size b) after
  | .node c body, alone => by
      obtain ⟨first, alone⟩ := List.forall_mem_cons.mp alone
      have blank : ∀ b ∈ List.replicate depth ' ', Text.isBlank b := by
        intro b there
        rw [List.eq_of_mem_replicate there]
        rfl
      rw [outline, List.cons_append, entriesFrom, first.read n _ blank, first.indent,
        entriesFrom_outlineAll alone, laid, size, Nat.add_assoc, List.cons_append]

theorem entriesFrom_outlineAll {depth n : Nat} {after : List (List Char)} : {bs : List Block} →
    (∀ c ∈ preorderAll bs, ReadAlone keywords timeout c) →
      entriesFrom keywords timeout n (outlineAll depth bs ++ after) =
        laidAll depth n bs ++ entriesFrom keywords timeout (n + sizeAll bs) after
  | [], _ => rfl
  | b :: rest, alone => by
      obtain ⟨first, alone⟩ := List.forall_mem_append.mp alone
      rw [outlineAll, List.append_assoc, entriesFrom_outline first, entriesFrom_outlineAll alone,
        laidAll, sizeAll, Nat.add_assoc, List.append_assoc]

end

theorem entries_written {tree : List Block}
    (alone : ∀ c ∈ preorderAll tree, ReadAlone keywords timeout c) :
    entries keywords timeout (written tree) = laidAll 0 0 tree := by
  rw [entries, written, String.toList_ofList, Text.splitOn_eq]
  cases tree with
  | nil => rfl
  | cons b rest =>
      have some : outlineAll 0 (b :: rest) ≠ [] := by
        obtain ⟨c, body⟩ := b
        exact List.cons_ne_nil _ _
      rw [List.splitOn_intercalate '\n' (fun l => unbroken_outlineAll alone) some]
      have all : entriesFrom keywords timeout 0 (outlineAll 0 (b :: rest) ++ []) =
          laidAll 0 0 (b :: rest) ++ entriesFrom keywords timeout (0 + sizeAll (b :: rest)) [] :=
        entriesFrom_outlineAll alone
      rwa [List.append_nil, entriesFrom, List.append_nil] at all

/-- Writing the tree of a script with one command a line, indented by its depth, and reading that
gives the tree again, its commands counted in script order. -/
theorem parse_written (keywords : KeywordSet) (timeout : Nat) (script : String) :
    let tree := parse keywords timeout script
    let again := parse keywords timeout (written tree)
    again = renumberAll 0 tree ∧
      preorderAll again = (preorderAll tree).mapIdx fun i c => { c with line := i } := by
  intro tree again
  have same : again = renumberAll 0 tree := by
    have bare : ∀ e ∈ entries keywords timeout script, e.command.header = none :=
      fun _ => entries_header
    simp only [again]
    rw [parse_eq_forest, entries_written fun c => readAlone_of_parse]
    simp only [tree]
    rw [parse_eq_forest, forest_laidAll bare rfl]
  refine ⟨same, ?_⟩
  rw [same, preorderAll_renumberAll]
  simp [Command.numbered]

end Script

end BrowserScript
