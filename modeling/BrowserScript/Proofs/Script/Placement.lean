import Mathlib.Data.List.GetD
import BrowserScript.Proofs.Script.Forest

/-!
Which line stands below which. The tree of a script lists the commands of its lines in script
order, and the parent of a command is the nearest line above it that is indented less. Nothing is
said here about how a single line is read.
-/

namespace BrowserScript

namespace Block

mutual

/-- The position of the parent of each command in the listing of all commands. `n` is the position
of the first command of the block. -/
def parents (parent : Option Nat) (n : Nat) : Block → List (Option Nat)
  | .node _ body => parent :: parentsAll (some n) (n + 1) body

def parentsAll (parent : Option Nat) (n : Nat) : List Block → List (Option Nat)
  | [] => []
  | b :: rest => parents parent n b ++ parentsAll parent (n + size b) rest

end

end Block

namespace Script

open Block

/-! ## The nearest place above that is indented less -/

/-- The last position before `i` with a smaller indentation. -/
def nearestShallower (indent : Nat → Nat) (i : Nat) : Option Nat :=
  ((List.range i).filter fun j => indent j < indent i).getLast?

theorem nearestShallower_congr {f g : Nat → Nat} {i : Nat} (h : ∀ j ≤ i, f j = g j) :
    nearestShallower f i = nearestShallower g i := by
  have same : (List.range i).filter (fun j => f j < f i)
      = (List.range i).filter fun j => g j < g i := by
    apply List.filter_congr
    intro j hj
    rw [h j (List.mem_range.mp hj).le, h i (Nat.le_refl i)]
  rw [nearestShallower, nearestShallower, same]

theorem le_of_nearestShallower_eq_none {f : Nat → Nat} {i : Nat}
    (h : nearestShallower f i = none) {j : Nat} (hj : j < i) : f i ≤ f j := by
  have empty := List.getLast?_eq_none_iff.mp h
  have := List.filter_eq_nil_iff.mp empty j (List.mem_range.mpr hj)
  simpa using this

/-- Look among the positions from `m` on first, then among those before. -/
theorem nearestShallower_add (f : Nat → Nat) (m i : Nat) :
    nearestShallower f (m + i) =
      ((nearestShallower (fun j => f (m + j)) i).map (m + ·)).or
        ((List.range m).filter fun j => f j < f (m + i)).getLast? := by
  simp only [nearestShallower]
  rw [List.range_add, List.filter_append, List.getLast?_append, List.filter_map,
    List.getLast?_map]
  rfl

theorem nearestShallower_inside {f : Nat → Nat} {i : Nat} (h : f 0 < f (1 + i)) :
    nearestShallower f (1 + i) =
      some (((nearestShallower (fun j => f (1 + j)) i).map (1 + ·)).getD 0) := by
  rw [nearestShallower_add]
  cases nearestShallower (fun j => f (1 + j)) i with
  | none => simp [h]
  | some j => rfl

/-- Where the first `m` positions are indented at least as far as the next one, they are nobody's
nearest from there on. -/
theorem nearestShallower_past {f : Nat → Nat} {m i : Nat} (h : ∀ j < m, f m ≤ f j) :
    nearestShallower f (m + i) = (nearestShallower (fun j => f (m + j)) i).map (m + ·) := by
  rw [nearestShallower_add]
  cases hn : nearestShallower (fun j => f (m + j)) i with
  | some j => rfl
  | none =>
      have first : f (m + i) ≤ f m := by
        cases i with
        | zero => exact Nat.le_refl _
        | succ i => exact le_of_nearestShallower_eq_none hn (Nat.succ_pos i)
      have none_before : (List.range m).filter (fun j => f j < f (m + i)) = [] := by
        rw [List.filter_eq_nil_iff]
        intro j hj
        have := h j (List.mem_range.mp hj)
        simp only [decide_eq_true_eq]
        omega
      rw [none_before]
      rfl

/-! ## The forest of some entries -/

/-- The indentation of the entry at a position. -/
def indentAt (es : List Entry) (i : Nat) : Nat := (es.map (·.indent)).getD i 0

theorem indentAt_cons (e : Entry) (es : List Entry) (i : Nat) :
    indentAt (e :: es) (1 + i) = indentAt es i := by
  simp [indentAt, Nat.add_comm 1 i]

theorem indentAt_deeper {n i : Nat} {es : List Entry} (h : i < (deeper n es).length) :
    indentAt es i = indentAt (deeper n es) i := by
  have whole := congrArg (indentAt · i) (deeper_append_beyond n es)
  simp only [indentAt, List.map_append] at whole ⊢
  rw [← whole, List.getD_append]
  simpa using h

theorem indentAt_beyond (n i : Nat) (es : List Entry) :
    indentAt es ((deeper n es).length + i) = indentAt (beyond n es) i := by
  have whole := congrArg (indentAt · ((deeper n es).length + i)) (deeper_append_beyond n es)
  simp only [indentAt, List.map_append] at whole ⊢
  rw [← whole, List.getD_append_right] <;> simp

theorem lt_indentAt_deeper {n i : Nat} {es : List Entry} (h : i < (deeper n es).length) :
    n < indentAt (deeper n es) i := by
  have := indent_of_mem_deeper (List.getElem_mem h)
  simpa [indentAt, h] using this

theorem indentAt_beyond_zero_le (n : Nat) (es : List Entry) : indentAt (beyond n es) 0 ≤ n := by
  cases h : beyond n es with
  | nil => exact Nat.zero_le n
  | cons e rest => simpa [indentAt] using indent_le_of_beyond_eq_cons h

theorem sizeAll_forest (parent : Option Command) (es : List Entry) :
    sizeAll (forest parent es) = es.length := by
  fun_induction forest parent es with
  | case1 => rfl
  | case2 parent e es ihBelow ihRest =>
      have parts := congrArg List.length (deeper_append_beyond e.indent es)
      rw [List.length_append] at parts
      simp only [sizeAll, size, ihBelow, ihRest, List.length_cons]
      omega

/-- Below an entry, the lines are placed among themselves, and the others below the entry. -/
theorem nearestShallower_deeper (e : Entry) {es : List Entry} {i : Nat}
    (inside : i < (deeper e.indent es).length) (p : Option Nat) (n : Nat) :
    ((nearestShallower (indentAt (e :: es)) (1 + i)).map (n + ·)).or p =
      ((nearestShallower (indentAt (deeper e.indent es)) i).map (n + 1 + ·)).or (some n) := by
  have same : ∀ j ≤ i, indentAt (e :: es) (1 + j) = indentAt (deeper e.indent es) j := by
    intro j hj
    rw [indentAt_cons, indentAt_deeper (Nat.lt_of_le_of_lt hj inside)]
  have first : indentAt (e :: es) 0 < indentAt (e :: es) (1 + i) := by
    rw [same i (Nat.le_refl i)]
    exact lt_indentAt_deeper inside
  rw [nearestShallower_inside first, nearestShallower_congr same]
  cases nearestShallower (indentAt (deeper e.indent es)) i <;> simp [Nat.add_assoc]

/-- What stands beyond the lines below an entry is placed among itself. -/
theorem nearestShallower_beyond (e : Entry) (es : List Entry) (i : Nat) :
    nearestShallower (indentAt (e :: es)) (1 + (deeper e.indent es).length + i) =
      (nearestShallower (indentAt (beyond e.indent es)) i).map
        (1 + (deeper e.indent es).length + ·) := by
  have later : ∀ j, indentAt (e :: es) (1 + (deeper e.indent es).length + j) =
      indentAt (beyond e.indent es) j := by
    intro j
    rw [Nat.add_assoc, indentAt_cons, indentAt_beyond]
  have next : indentAt (e :: es) (1 + (deeper e.indent es).length) ≤ e.indent := by
    have := indentAt_beyond_zero_le e.indent es
    rwa [← later 0, Nat.add_zero] at this
  rw [nearestShallower_past, funext later]
  intro j hj
  refine Nat.le_trans next ?_
  cases j with
  | zero => exact Nat.le_refl _
  | succ j =>
      have hj' : j < (deeper e.indent es).length := by omega
      rw [Nat.add_comm j 1, indentAt_cons, indentAt_deeper hj']
      exact (lt_indentAt_deeper hj').le

/-- The positions of the parents of a forest whose listing begins at `n`, below a command at `p`. -/
theorem parentsAll_forest (parent : Option Command) (es : List Entry) (p : Option Nat) (n : Nat) :
    parentsAll p n (forest parent es) =
      (List.range es.length).map fun i =>
        ((nearestShallower (indentAt es) i).map (n + ·)).or p := by
  fun_induction forest parent es generalizing p n with
  | case1 => rfl
  | case2 parent e es ihBelow ihRest =>
      have parts := congrArg List.length (deeper_append_beyond e.indent es)
      rw [List.length_append] at parts
      have split : (e :: es).length =
          1 + (deeper e.indent es).length + (beyond e.indent es).length := by
        simp only [List.length_cons]
        omega
      rw [split, List.range_add, List.range_add]
      simp only [parentsAll, parents, size, sizeAll_forest, ihBelow, ihRest, List.map_append,
        List.map_map]
      congr 1
      · refine congrArg₂ List.cons ?_ ?_
        · simp [nearestShallower]
        · apply List.map_congr_left
          intro i hi
          exact (nearestShallower_deeper e (List.mem_range.mp hi) p n).symm
      · apply List.map_congr_left
        intro i _
        simp only [Function.comp_apply, nearestShallower_beyond]
        cases nearestShallower (indentAt (beyond e.indent es)) i <;> simp [Nat.add_assoc]

/-- The listing of a forest: each entry as it stands below its parent. `above` gives the command
at a position of the whole listing. -/
theorem preorderAll_forest (parent : Option Command) (es : List Entry) (p : Option Nat) (n : Nat)
    (above : Nat → Option Command) (hp : p.bind above = parent)
    (ha : ∀ i e, es[i]? = some e → above (n + i) = some e.command) :
    preorderAll (forest parent es) =
      es.zipWith (fun e q => placed (q.bind above) e.command)
        (parentsAll p n (forest parent es)) := by
  fun_induction forest parent es generalizing p n with
  | case1 => rfl
  | case2 parent e es ihBelow ihRest =>
      have whole := deeper_append_beyond e.indent es
      have below := ihBelow (some n) (n + 1) (by simpa using ha 0 e rfl) (by
        intro i e' h
        rw [Nat.add_assoc, Nat.add_comm 1 i]
        apply ha
        have first : (deeper e.indent es ++ beyond e.indent es)[i]? = (deeper e.indent es)[i]? :=
          List.getElem?_append_left (List.getElem?_eq_some_iff.mp h).choose
        rw [whole] at first
        rw [List.getElem?_cons_succ, first, h])
      have rest := ihRest p (n + size (.node (placed parent e.command)
          (forest (some e.command) (deeper e.indent es)))) hp (by
        intro i e' h
        simp only [size, sizeAll_forest]
        rw [Nat.add_assoc]
        apply ha
        rw [Nat.add_assoc, Nat.add_comm 1, List.getElem?_cons_succ]
        have later : (deeper e.indent es ++ beyond e.indent es)[(deeper e.indent es).length + i]? =
            (beyond e.indent es)[(deeper e.indent es).length + i - (deeper e.indent es).length]? :=
          List.getElem?_append_right (Nat.le_add_right _ i)
        rw [whole, Nat.add_sub_cancel_left] at later
        rw [later, h])
      have lengths : (deeper e.indent es).length =
          (parentsAll (some n) (n + 1)
            (forest (some e.command) (deeper e.indent es))).length := by
        simp [parentsAll_forest]
      have joined : ∀ qs, List.zipWith (fun e q => placed (q.bind above) (Entry.command e))
          (deeper e.indent es ++ beyond e.indent es)
          (parentsAll (some n) (n + 1) (forest (some e.command) (deeper e.indent es)) ++ qs) = _ :=
        fun qs => List.zipWith_append lengths
      rw [whole] at joined
      simp only [preorderAll, preorder, parentsAll, parents, List.cons_append,
        List.zipWith_cons_cons, hp]
      rw [joined, below, rest]

/-! ## The lines of a script -/

/-- The lines that are not blank, with their numbers. -/
def numberedLines (script : String) : List (List Char × Nat) :=
  (Text.splitOn '\n' script.toList).zipIdx.filter fun l => !l.1.all Text.isBlank

theorem trim_eq_nil_iff (text : List Char) : Text.trim text = [] ↔ text.all Text.isBlank := by
  constructor
  · intro h
    have ends : ∀ c ∈ text.dropWhile Text.isBlank, Text.isBlank c := by
      have := List.dropWhile_eq_nil_iff.mp (List.reverse_eq_nil_iff.mp h)
      simpa [Text.trimStart] using this
    have start : text.dropWhile Text.isBlank = [] := by
      cases hd : text.dropWhile Text.isBlank with
      | nil => rfl
      | cons c cs =>
          have first := List.head?_dropWhile_not Text.isBlank text
          rw [hd] at first ends
          exact absurd (ends c (List.mem_cons_self ..)) (by simpa using first)
    simpa [List.dropWhile_eq_nil_iff] using start
  · intro h
    have start : text.dropWhile Text.isBlank = [] :=
      List.dropWhile_eq_nil_iff.mpr (by simpa using h)
    simp [Text.trim, Text.trimStart, start, Text.trimEnd]

theorem parseLine?_eq_none_iff (keywords : KeywordSet) (timeout line : Nat) (text : List Char) :
    parseLine? keywords timeout line text = none ↔ text.all Text.isBlank := by
  rw [← trim_eq_nil_iff, parseLine?]
  split <;> simp_all

theorem resolve_place (c : Command) (keywords : KeywordSet) :
    (c.resolve keywords).line = c.line ∧ (c.resolve keywords).header = c.header := by
  simp only [Command.resolve]
  repeat' split
  all_goals exact ⟨rfl, rfl⟩

theorem takeWords_place (unread : Bool) (c : Command) (ws : List (List Char)) :
    (takeWords unread c ws).line = c.line ∧ (takeWords unread c ws).header = c.header := by
  fun_induction takeWords unread c ws <;>
    simp_all [Command.push, pushVerify, VerifyStatement.applyTo]

/-- The command of a line carries the number of the line, and no heading. -/
theorem parseLine?_place {keywords : KeywordSet} {timeout line : Nat} {text : List Char}
    {c : Command} (h : parseLine? keywords timeout line text = some c) :
    c.line = line ∧ c.header = none := by
  unfold parseLine? at h
  split at h
  · cases h
  · obtain rfl := Option.some.inj h
    rw [(resolve_place _ _).1, (resolve_place _ _).2, readLine]
    split
    · exact ⟨rfl, rfl⟩
    · rw [(takeWords_place _ _ _).1, (takeWords_place _ _ _).2]
      exact ⟨rfl, rfl⟩

theorem entriesFrom_eq (keywords : KeywordSet) (timeout n : Nat) (lines : List (List Char)) :
    (entriesFrom keywords timeout n lines).map (fun e => (e.indent, some e.command)) =
      ((lines.zipIdx n).filter fun l => !l.1.all Text.isBlank).map fun l =>
        (indent l.1, parseLine? keywords timeout l.2 l.1) := by
  induction lines generalizing n with
  | nil => rfl
  | cons text rest ih =>
      rw [entriesFrom, List.zipIdx_cons]
      cases h : parseLine? keywords timeout n text with
      | none =>
          have blank := (parseLine?_eq_none_iff keywords timeout n text).mp h
          simp only [blank, ih, List.filter_cons, Bool.not_true, Bool.false_eq_true, if_false]
      | some c =>
          have notBlank : text.all Text.isBlank = false := by
            rw [← Bool.not_eq_true, ← parseLine?_eq_none_iff keywords timeout n text, h]
            simp
          simp only [notBlank, ih, List.filter_cons, Bool.not_false, if_true, List.map_cons, h]

/-! ## The tree of a script -/

/-- The heading a command gives to the ones directly below it. -/
def headingBelow (c : Command) : Option String :=
  if c.verb == some "under" then c.quotedLiterals.head? else none

/-- Only the heading of a command can change where it is placed. -/
theorem exists_placed (parent : Option Command) (c : Command) :
    ∃ header, placed parent c = { c with header } := by
  unfold placed
  split
  · split
    · exact ⟨_, rfl⟩
    · exact ⟨c.header, rfl⟩
  · exact ⟨c.header, rfl⟩

theorem headingBelow_placed (parent : Option Command) (c : Command) :
    headingBelow (placed parent c) = headingBelow c := by
  obtain ⟨header, placed⟩ := exists_placed parent c
  rw [placed]
  rfl

theorem placed_header (parent : Option Command) {c : Command} (h : c.header = none) :
    (placed parent c).header = parent.bind headingBelow := by
  cases parent with
  | none => exact h
  | some p =>
      simp only [placed, Option.bind_some, headingBelow]
      split
      · rfl
      · exact h

theorem placed_without_header (parent : Option Command) {c : Command} (h : c.header = none) :
    { placed parent c with header := none } = c := by
  obtain ⟨header, placed⟩ := exists_placed parent c
  rw [placed, ← h]

/-- Each entry of a forest as it stands below the nearest entry above it that is indented less. -/
theorem preorderAll_forest_eq_mapIdx (es : List Entry) :
    preorderAll (forest none es) = es.mapIdx fun i e =>
      placed ((nearestShallower (indentAt es) i).bind fun j => es[j]?.map (·.command))
        e.command := by
  rw [preorderAll_forest none es none 0 (fun j => es[j]?.map (·.command)) rfl, parentsAll_forest]
  · apply List.ext_getElem?
    intro i
    simp only [List.getElem?_zipWith, List.getElem?_mapIdx, List.getElem?_map]
    by_cases hi : i < es.length
    · simp [hi]
    · simp [hi]
  · intro i e h
    simp [h]

theorem parentsAll_forest_top (es : List Entry) :
    parentsAll none 0 (forest none es) =
      (List.range es.length).map (nearestShallower (indentAt es)) := by
  rw [parentsAll_forest]
  apply List.map_congr_left
  intro i _
  cases nearestShallower (indentAt es) i <;> simp

section Headings

variable {es : List Entry} (header : ∀ e ∈ es, e.command.header = none)
include header

/-- Apart from their headings the commands of a forest are those of its entries. -/
theorem preorderAll_forest_without_header :
    (preorderAll (forest none es)).map (fun c => { c with header := none }) =
      es.map (·.command) := by
  rw [preorderAll_forest_eq_mapIdx]
  apply List.ext_getElem
  · simp
  · intro i hi _
    have below : i < es.length := by simpa using hi
    simpa using placed_without_header _ (header _ (List.getElem_mem below))

/-- Each command of a forest has the heading its parent gives. -/
theorem preorderAll_forest_header :
    (preorderAll (forest none es)).map (·.header) =
      (parentsAll none 0 (forest none es)).map fun p =>
        (p.bind ((preorderAll (forest none es))[·]?)).bind headingBelow := by
  rw [parentsAll_forest_top, preorderAll_forest_eq_mapIdx]
  apply List.ext_getElem
  · simp
  · intro i hi _
    have below : i < es.length := by simpa using hi
    simp only [List.getElem_map, List.getElem_mapIdx, List.getElem_range,
      placed_header _ (header _ (List.getElem_mem below))]
    cases nearestShallower (indentAt es) i with
    | none => rfl
    | some j => cases h : es[j]? <;> simp [h, headingBelow_placed]

end Headings

theorem entries_eq (keywords : KeywordSet) (timeout : Nat) (script : String) :
    (entries keywords timeout script).map (fun e => (e.indent, some e.command)) =
      (numberedLines script).map fun l => (indent l.1, parseLine? keywords timeout l.2 l.1) :=
  entriesFrom_eq keywords timeout 0 _

theorem entries_header {keywords : KeywordSet} {timeout : Nat} {script : String} {e : Entry}
    (h : e ∈ entries keywords timeout script) : e.command.header = none := by
  have listed := List.mem_map_of_mem (f := fun e : Entry => (e.indent, some e.command)) h
  rw [entries_eq] at listed
  obtain ⟨l, -, hl⟩ := List.mem_map.mp listed
  exact (parseLine?_place (Prod.mk.inj hl).2).2

theorem numberedLines_increasing (script : String) :
    ((numberedLines script).map (·.2)).Pairwise (· < ·) := by
  have numbers := List.pairwise_lt_range' (s := 0) (n := (Text.splitOn '\n' script.toList).length)
  rw [← List.zipIdx_map_snd, List.pairwise_map] at numbers
  exact List.pairwise_map.mpr (numbers.filter _)

theorem lines_of_entries {es : List Entry} {keywords : KeywordSet} {timeout : Nat}
    {script : String}
    (h : es.map (fun e => some e.command) =
      (numberedLines script).map fun l => parseLine? keywords timeout l.2 l.1) :
    es.map (·.command.line) = (numberedLines script).map (·.2) := by
  have numbers := congrArg (List.map fun c : Option Command => (c.map (·.line)).getD 0) h
  simp only [List.map_map] at numbers
  refine numbers.trans (List.map_congr_left fun l hl => ?_)
  cases hc : parseLine? keywords timeout l.2 l.1 with
  | none =>
      have blank := (parseLine?_eq_none_iff keywords timeout l.2 l.1).mp hc
      have kept := (List.mem_filter.mp hl).2
      simp [blank] at kept
  | some c => simp [hc, (parseLine?_place hc).1]

/-- The listing of the tree of a script has one command for each line that is not blank, in their
order. Apart from its heading it is the command of that line alone. Its parent is the nearest of
these lines above it that is indented less, and it has the heading that the parent gives. -/
theorem parse_attaches_lines (keywords : KeywordSet) (timeout : Nat) (script : String) :
    let lines := numberedLines script
    let tree := parse keywords timeout script
    let listing := preorderAll tree
    let parents := parentsAll none 0 tree
    listing.map (fun c => some { c with header := none }) =
        lines.map (fun l => parseLine? keywords timeout l.2 l.1) ∧
      sizeAll tree = lines.length ∧
      listing.Pairwise (fun c d => c.line < d.line) ∧
      parents = (List.range lines.length).map
        (nearestShallower fun i => (lines.map fun l => indent l.1).getD i 0) ∧
      listing.map (·.header) = parents.map fun p => (p.bind (listing[·]?)).bind headingBelow := by
  intro lines tree listing parents
  have eq := entries_eq keywords timeout script
  have header : ∀ e ∈ entries keywords timeout script, e.command.header = none :=
    fun _ => entries_header
  have tree_eq : tree = forest none (entries keywords timeout script) := parse_eq_forest ..
  generalize entries keywords timeout script = es at eq header tree_eq
  have commands : es.map (fun e => some e.command) =
      lines.map fun l => parseLine? keywords timeout l.2 l.1 := by
    simpa [Function.comp_def] using congrArg (List.map Prod.snd) eq
  have indents : es.map (·.indent) = lines.map fun l => indent l.1 := by
    simpa [Function.comp_def] using congrArg (List.map Prod.fst) eq
  have count : es.length = lines.length := by
    simpa using congrArg List.length indents
  have bare : listing.map (fun c => { c with header := none }) = es.map (·.command) := by
    simp only [listing, tree_eq]
    exact preorderAll_forest_without_header header
  refine ⟨?_, ?_, ?_, ?_, ?_⟩
  · rw [← commands]
    simpa [Function.comp_def] using congrArg (List.map some) bare
  · rw [tree_eq, sizeAll_forest, count]
  · have numbers : listing.map (·.line) = lines.map (·.2) := by
      rw [← lines_of_entries commands]
      simpa [Function.comp_def] using congrArg (List.map (·.line)) bare
    have increasing : (lines.map (·.2)).Pairwise (· < ·) := numberedLines_increasing script
    rwa [← numbers, List.pairwise_map] at increasing
  · simp only [parents, tree_eq]
    rw [parentsAll_forest_top, count, ← indents]
    rfl
  · simp only [listing, parents, tree_eq]
    exact preorderAll_forest_header header

end Script

end BrowserScript
