import BrowserScript.Proofs.Dom.Forest
import BrowserScript.XPath.Eval
import Mathlib.Data.List.Pairwise
import Mathlib.Data.List.Sort

/-!
Document order. In a forest the nodes of the document stand at different places, so putting node
sets in order sorts them as a preorder does and drops repetitions.
-/

namespace BrowserScript

namespace XPath

open Dom (NodeId)

variable {α : Type} {xs : List α}

/-! ## Repetitions -/

section Repetitions

variable [DecidableEq α]

theorem loop_eraseReps (a : α) (xs acc : List α) :
    List.eraseRepsBy.loop (· == ·) a xs acc = acc.reverse ++ (a :: xs).eraseReps := by
  induction xs generalizing a acc with
  | nil => simp [List.eraseRepsBy.loop, List.eraseReps, List.eraseRepsBy]
  | cons b xs ih =>
      have whole : (a :: b :: xs).eraseReps = List.eraseRepsBy.loop (· == ·) a (b :: xs) [] := rfl
      rw [whole, List.eraseRepsBy.loop, List.eraseRepsBy.loop]
      cases same : a == b with
      | true => simp only [ih a acc, ih a [], List.reverse_nil, List.nil_append]
      | false => simp [ih b (a :: acc), ih b [a]]

theorem eraseReps_cons_cons (a b : α) (xs : List α) :
    (a :: b :: xs).eraseReps = if a = b then (b :: xs).eraseReps else a :: (b :: xs).eraseReps := by
  have whole : (a :: b :: xs).eraseReps = List.eraseRepsBy.loop (· == ·) a (b :: xs) [] := rfl
  rw [whole, List.eraseRepsBy.loop]
  split
  · next same =>
      obtain rfl := eq_of_beq same
      rw [if_pos rfl, loop_eraseReps]
      rfl
  · next other =>
      rw [if_neg (beq_eq_false_iff_ne.mp other), loop_eraseReps]
      rfl

theorem mem_eraseReps {a : α} : a ∈ xs.eraseReps ↔ a ∈ xs := by
  induction xs with
  | nil => rfl
  | cons b xs ih =>
      cases xs with
      | nil => rfl
      | cons c xs =>
          rw [eraseReps_cons_cons]
          split
          · next same => rw [ih, same, List.mem_cons (a := a) (b := c) (l := c :: xs)]; simp
          · rw [List.mem_cons, ih, List.mem_cons (b := b)]

/-- In a sorted list repetitions stand side by side. -/
theorem pairwise_eraseReps {r : α → α → Prop} (sorted : xs.Pairwise r)
    (antisymm : ∀ a ∈ xs, ∀ b ∈ xs, r a b → r b a → a = b) :
    xs.eraseReps.Pairwise fun a b => r a b ∧ a ≠ b := by
  induction xs with
  | nil => exact .nil
  | cons b xs ih =>
      cases xs with
      | nil => exact List.pairwise_singleton ..
      | cons c xs =>
          obtain ⟨first, sorted⟩ := List.pairwise_cons.mp sorted
          have later := ih sorted fun a mem d mem' =>
            antisymm a (List.mem_cons_of_mem b mem) d (List.mem_cons_of_mem b mem')
          rw [eraseReps_cons_cons]
          split
          · exact later
          · next other =>
              refine List.pairwise_cons.mpr ⟨fun d mem => ?_, later⟩
              refine ⟨first d (mem_eraseReps.mp mem), ?_⟩
              rintro rfl
              obtain same | again := List.mem_cons.mp (mem_eraseReps.mp mem)
              · exact other same
              · have back : r c b := (List.pairwise_cons.mp sorted).1 b again
                exact other (antisymm b List.mem_cons_self c
                  (List.mem_cons_of_mem b List.mem_cons_self) (first c List.mem_cons_self) back)

end Repetitions

/-! ## Sorting -/

namespace Scope

variable {s : Scope} {items found : List Item} {a b c : Item}

theorem before_iff : s.before a b ↔ (s.key a).1 < (s.key b).1 ∨
    (s.key a).1 = (s.key b).1 ∧ (s.key a).2 ≤ (s.key b).2 := by
  rw [before]
  simp

theorem before_trans (first : s.before a b) (second : s.before b c) : s.before a c := by
  rw [before_iff] at first second ⊢
  omega

theorem before_total (s : Scope) (a b : Item) : s.before a b || s.before b a := by
  rw [Bool.or_eq_true, before_iff, before_iff]
  omega

/-- The first item stands strictly before the second. -/
def Precedes (s : Scope) (a b : Item) : Prop := ¬ s.before b a

instance (s : Scope) : Std.Antisymm s.Precedes where
  antisymm a b first second := by
    have total := before_total s a b
    rw [Bool.or_eq_true] at total
    exact (total.elim second first).elim

instance (s : Scope) : Std.Irrefl s.Precedes where
  irrefl a := by
    have total := before_total s a a
    rw [Bool.or_self] at total
    exact not_not_intro total

/-- Items that come one after the other are what any list of the same items is in order. -/
theorem inOrder_eq (sorted : found.Pairwise s.Precedes) (same : ∀ i, i ∈ items ↔ i ∈ found) :
    s.inOrder items = found := by
  have apart : found.Pairwise fun a b => ¬ (s.before a b ∧ s.before b a) :=
    sorted.imp fun first both => first both.2
  have symm : Std.Symm fun a b => ¬ (s.before a b ∧ s.before b a) := ⟨fun a b => mt And.symm⟩
  have antisymm : ∀ a ∈ found, ∀ b ∈ found, s.before a b → s.before b a → a = b := by
    intro a mem b mem' first second
    by_contra other
    exact apart.forall mem mem' other ⟨first, second⟩
  have trans : ∀ a b c, s.before a b → s.before b c → s.before a c := fun _ _ _ => before_trans
  have merged := List.pairwise_mergeSort trans (before_total s) items
  have members : ∀ i, i ∈ items.mergeSort s.before ↔ i ∈ found := fun i =>
    (List.mergeSort_perm items s.before).mem_iff.trans (same i)
  have cleaned := pairwise_eraseReps merged fun a mem b mem' =>
    antisymm a ((members a).mp mem) b ((members b).mp mem')
  have kept : ∀ i, i ∈ s.inOrder items ↔ i ∈ found := fun i => mem_eraseReps.trans (members i)
  refine List.Pairwise.eq_of_mem_iff (r := s.Precedes) (cleaned.imp_of_mem ?_) sorted kept
  rintro a b mem mem' ⟨first, other⟩ back
  exact other (antisymm a ((kept a).mp mem) b ((kept b).mp mem') first back)

theorem mem_inOrder : a ∈ s.inOrder items ↔ a ∈ items :=
  mem_eraseReps.trans (List.mergeSort_perm items s.before).mem_iff

theorem inOrder_nil (s : Scope) : s.inOrder [] = [] := inOrder_eq .nil fun _ => .rfl

theorem inOrder_singleton (s : Scope) (a : Item) : s.inOrder [a] = [a] :=
  inOrder_eq (List.pairwise_singleton ..) fun _ => .rfl

/-! ## Places -/

/-- Each listed node gets its position, any other keeps what it had. -/
theorem getElem?_places {ns : List NodeId} (distinct : ns.Nodup) (n : NodeId) (start : Nat)
    (places : Array (Option Nat)) :
    ((ns.zipIdx start).foldl (fun places x => places.setIfInBounds x.1 (some x.2)) places)[n]? =
      if n ∈ ns then places[n]?.map fun _ => some (start + ns.idxOf n) else places[n]? := by
  induction ns generalizing start places with
  | nil => simp
  | cons m ns ih =>
      obtain ⟨apart, distinct⟩ := List.nodup_cons.mp distinct
      rw [List.zipIdx_cons, List.foldl_cons, ih distinct]
      by_cases later : n ∈ ns
      · have other : m ≠ n := fun same => apart (same ▸ later)
        rw [if_pos later, if_pos (List.mem_cons_of_mem m later),
          Array.getElem?_setIfInBounds_ne other, List.idxOf_cons_ne ns other, Nat.add_right_comm,
          Nat.add_assoc]
      · rw [if_neg later]
        by_cases same : m = n
        · obtain rfl := same
          rw [if_pos List.mem_cons_self, List.idxOf_cons_self, Nat.add_zero,
            Array.getElem?_setIfInBounds_self]
          split
          · next less => rw [Array.getElem?_eq_getElem less]; rfl
          · next beyond => rw [Array.getElem?_eq_none (Nat.le_of_not_lt beyond)]; rfl
        · have absent : n ∉ m :: ns := by
            rw [List.mem_cons, not_or]
            exact ⟨fun eq => same eq.symm, later⟩
          rw [if_neg absent, Array.getElem?_setIfInBounds_ne same]

variable {d : Dom} {n : NodeId}

theorem place_of_mem (f : d.Forest) (mem : n ∈ d.document) :
    (Scope.of d).place n = d.document.idxOf n := by
  have less := f.lt_size_of_connected (f.mem_document_iff.mp mem)
  have entry := getElem?_places f.nodup_document n 0 (Array.replicate d.size none)
  rw [if_pos mem, Array.getElem?_replicate, if_pos less, Option.map_some, Nat.zero_add] at entry
  have read : (Scope.of d).places[n]? = some (some (d.document.idxOf n)) := entry
  rw [place, read]
  rfl

theorem pairwise_document (f : d.Forest) :
    (d.document.map Item.node).Pairwise (Scope.of d).Precedes := by
  rw [List.pairwise_map, List.pairwise_iff_getElem]
  intro i j hi hj less
  have first := place_of_mem f (List.getElem_mem hi)
  have second := place_of_mem f (List.getElem_mem hj)
  rw [f.nodup_document.idxOf_getElem] at first second
  rw [Precedes, before_iff, key, key, first, second]
  omega

/-- The nodes of the document with a property are put in preorder, however they are listed. -/
theorem inOrder_nodes (f : d.Forest) (p : NodeId → Bool) {items : List Item}
    (same : ∀ i, i ∈ items ↔ ∃ n, d.Connected n ∧ p n ∧ i = .node n) :
    (Scope.of d).inOrder items = (d.document.filter p).map .node := by
  have part : ((d.document.filter p).map Item.node).Sublist (d.document.map .node) :=
    (List.filter_sublist ..).map Item.node
  refine inOrder_eq ((pairwise_document f).sublist part) fun i => ?_
  rw [same, List.mem_map]
  apply exists_congr
  intro n
  rw [List.mem_filter, f.mem_document_iff, and_assoc, eq_comm (a := i)]

end Scope

/-- A step that leads to these items. -/
theorem applySteps_eq {s : Scope} {st : Step} {items found : List Item} {lists : List (List Item)}
    (walked : items.mapM (st.apply s) = some lists) (ordered : found.Pairwise s.Precedes)
    (same : ∀ i, i ∈ lists.flatten ↔ i ∈ found) (rest : List Step) :
    applySteps s (st :: rest) items = applySteps s rest found := by
  rw [applySteps, walked]
  exact congrArg (applySteps s rest) (Scope.inOrder_eq ordered same)

end XPath

end BrowserScript
