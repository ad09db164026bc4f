import BrowserScript.Proofs.Dom.Edits
import BrowserScript.Proofs.XPath.Order
import BrowserScript.Proofs.XPath.Reading
import Mathlib.Data.Set.List

/-!
What expressions select: predicates that are true or false keep the nodes they hold for, an
attribute has its one value, and steps lead from the nodes of the document with one property to
those with another, always in preorder.
-/

namespace BrowserScript

namespace XPath

open Dom (NodeId)

variable {d : Dom} {s : Scope} {n : NodeId}

theorem mapM_some {α β : Type} {f : α → Option β} {g : α → β} {xs : List α}
    (all : ∀ x ∈ xs, f x = some (g x)) : xs.mapM f = some (xs.map g) := by
  induction xs with
  | nil => rfl
  | cons x xs ih =>
      obtain ⟨first, all⟩ := List.forall_mem_cons.mp all
      rw [List.mapM_cons, first, ih all]
      rfl

/-! ## Predicates -/

/-- A condition on nodes that is no number, so that no place is meant by it. -/
def Decides (s : Scope) (e : Expr) (t : NodeId → Bool) : Prop :=
  ∀ n position size, ∃ v, e.eval s ⟨.node n, position, size⟩ = some v ∧ (∀ f, v ≠ .number f) ∧
    v.toBool = t n

theorem Decides.of_bool {e : Expr} {t : NodeId → Bool}
    (value : ∀ n position size, e.eval s ⟨.node n, position, size⟩ = some (.bool (t n))) :
    Decides s e t := by
  intro n position size
  refine ⟨.bool (t n), value n position size, ?_, rfl⟩
  intro f same
  cases same

theorem Decides.or {a b : Expr} {t u : NodeId → Bool} (first : Decides s a t)
    (second : Decides s b u) : Decides s (.or a b) fun n => t n || u n := by
  refine .of_bool fun n position size => ?_
  obtain ⟨v, own, -, truth⟩ := first n position size
  obtain ⟨w, other, -, truth'⟩ := second n position size
  rw [Expr.eval, own, other, ← truth, ← truth']
  cases holds : v.toBool <;> simp [holds]

/-- Conditions joined from the left. -/
theorem Decides.foldl_or {α : Type} {e : Expr} {t : NodeId → Bool} {expr : α → Expr}
    {u : α → NodeId → Bool} {xs : List α} (first : Decides s e t)
    (decides : ∀ x ∈ xs, Decides s (expr x) (u x)) :
    Decides s (xs.foldl (fun e x => .or e (expr x)) e) fun n => t n || xs.any (u · n) := by
  induction xs generalizing e t with
  | nil => simpa using first
  | cons x xs ih =>
      obtain ⟨next, decides⟩ := List.forall_mem_cons.mp decides
      have all := ih (first.or next) decides
      simpa [Bool.or_assoc] using all

theorem keep_nodes {e : Expr} {t : NodeId → Bool} (decides : Decides s e t) (ns : List NodeId) :
    keep (e.eval s) (ns.map .node) = some ((ns.filter t).map .node) := by
  have kept : ∀ start, ((ns.zipIdx start).map fun x =>
      if t x.1 then [Item.node x.1] else []).flatten = (ns.filter t).map .node := by
    induction ns with
    | nil => exact fun _ => rfl
    | cons n ns ih =>
        intro start
        rw [List.zipIdx_cons, List.map_cons, List.flatten_cons, ih, List.filter_cons]
        split <;> rfl
  rw [keep, List.zipIdx_map, List.mapM_map,
    mapM_some (g := fun x : NodeId × Nat => if t x.1 then [Item.node x.1] else [])]
  · exact congrArg some (kept 0)
  · intro x mem
    obtain ⟨v, value, noNumber, truth⟩ := decides x.1 (x.2 + 1) (ns.map Item.node).length
    rw [Function.comp_apply]
    dsimp only [Prod.map, id]
    rw [value, ← truth]
    cases v with
    | number f => exact absurd rfl (noNumber f)
    | _ => rfl

theorem applyPredicates_nodes {α : Type} {expr : α → Expr} {t : α → NodeId → Bool} {xs : List α}
    (decides : ∀ x ∈ xs, Decides s (expr x) (t x)) (ns : List NodeId) :
    applyPredicates s (xs.map expr) (ns.map .node) =
      some ((ns.filter fun n => xs.all (t · n)).map .node) := by
  induction xs generalizing ns with
  | nil => simp [applyPredicates]
  | cons x xs ih =>
      obtain ⟨first, decides⟩ := List.forall_mem_cons.mp decides
      rw [List.map_cons, applyPredicates, keep_nodes first, Option.bind_eq_bind, Option.bind_some,
        ih decides, List.filter_filter]
      simp [Bool.and_comm]

/-! ## Attributes -/

/-- The values at the places where a condition holds. -/
theorem map_places {α β : Type} (p : α → Bool) (value : Option α → β) (xs : List α) :
    ((List.range xs.length).filter fun i => xs[i]?.any p).map (fun i => value xs[i]?) =
      (xs.filter p).map fun x => value (some x) := by
  induction xs with
  | nil => rfl
  | cons x xs ih =>
      have later : (((List.range xs.length).map Nat.succ).filter fun i =>
          (x :: xs)[i]?.any p).map (fun i => value (x :: xs)[i]?) =
          (xs.filter p).map fun x => value (some x) := by
        rw [List.filter_map, List.map_map]
        exact ih
      rw [List.length_cons, List.range_succ_eq_map, List.filter_cons, List.filter_cons,
        List.getElem?_cons_zero, Option.any_some]
      cases p x with
      | true => exact congrArg (value (some x) :: ·) later
      | false => exact later

/-- Where names differ, there is at most one entry of a name. -/
theorem filter_name {entries : List (String × String)} (distinct : (entries.map (·.1)).Nodup)
    (name : String) :
    entries.filter (·.1 == name) = (entries.find? (·.1 == name)).toList := by
  induction entries with
  | nil => rfl
  | cons entry entries ih =>
      obtain ⟨apart, distinct⟩ := List.nodup_cons.mp distinct
      rw [List.filter_cons, List.find?_cons]
      cases same : entry.1 == name with
      | false => exact ih distinct
      | true =>
          have none : entries.filter (·.1 == name) = [] := by
            rw [List.filter_eq_nil_iff]
            intro other mem again
            refine apart (List.mem_map.mpr ⟨other, mem, ?_⟩)
            exact (eq_of_beq again).trans (eq_of_beq same).symm
          rw [if_pos rfl, none]
          rfl

/-- The items of an attribute: one with its value, or none. -/
def attributeItems (d : Dom) (n : NodeId) (name : String) : List Item :=
  (Axis.attribute.ofNode d n).filter (NodeTest.holds d (.name name))

theorem map_attributeItems (distinct : d.Distinct) (n : NodeId) (name : String) :
    (attributeItems d n name).map (Scope.of d).stringValue = (d.attribute? n name).toList := by
  rw [attributeItems, Axis.ofNode, Dom.attribute?]
  cases element : d.element? n with
  | none => rfl
  | some e =>
      have holds : NodeTest.holds d (.name name) ∘ Item.attribute n =
          fun i => e.attributes[i]?.any (·.1 == name) := by
        funext i
        rw [Function.comp_apply, NodeTest.holds, element, Option.bind_some]
      have value : (Scope.of d).stringValue ∘ Item.attribute n =
          fun i => (e.attributes[i]?.map (·.2)).getD "" := by
        funext i
        rw [Function.comp_apply, Scope.stringValue, Scope.of, element, Option.bind_some]
      have all := map_places (·.1 == name) (fun x => (x.map (·.2)).getD "") e.attributes
      rw [filter_name (distinct n e element)] at all
      rw [List.filter_map, List.map_map, holds, value, all, Option.bind_some,
        Dom.Element.attribute?]
      cases e.attributes.find? (·.1 == name) <;> rfl

theorem length_attributeItems (distinct : d.Distinct) (n : NodeId) (name : String) :
    (attributeItems d n name).length ≤ 1 := by
  have values := congrArg List.length (map_attributeItems distinct n name)
  rw [List.length_map] at values
  rw [values]
  cases d.attribute? n name with
  | none => exact Nat.zero_le 1
  | some v => exact Nat.le_refl 1

/-- A set of one item or none is in order. -/
theorem inOrder_of_length {items : List Item} (few : items.length ≤ 1) :
    s.inOrder items = items := by
  cases items with
  | nil => exact Scope.inOrder_nil s
  | cons i items =>
      obtain rfl := List.length_eq_zero_iff.mp (Nat.le_zero.mp (Nat.le_of_succ_le_succ few))
      exact Scope.inOrder_singleton s i

theorem eval_attributeOf (distinct : d.Distinct) {name : String}
    (lowered : Text.asciiLowered name = name) (n : NodeId) (position size : Nat) :
    (attributeOf name).eval (Scope.of d) ⟨.node n, position, size⟩ =
      some (.nodes (attributeItems d n name)) := by
  have step : Step.apply (Scope.of d) (.step .attribute (.name name) []) (.node n) =
      some (attributeItems d n name) := by
    rw [Step.apply, applyPredicates]
    rfl
  have ordered := inOrder_of_length (s := Scope.of d) (length_attributeItems distinct n name)
  rw [attributeOf, lowered, Expr.eval, if_neg Bool.false_ne_true, applySteps, List.mapM_cons, step]
  simp [applySteps, ordered]

/-! ## Steps through the document -/

/-- A step leads from the nodes of the document with one property to those with another. -/
theorem applySteps_document (f : d.Forest) {p q : NodeId → Bool} {st : Step}
    {reach : NodeId → List NodeId}
    (apply : ∀ n, st.apply (Scope.of d) (.node n) = some ((reach n).map .node))
    (leads : ∀ m, d.Connected m ∧ q m ↔ ∃ n, d.Connected n ∧ p n ∧ m ∈ reach n)
    (rest : List Step) :
    applySteps (Scope.of d) (st :: rest) ((d.document.filter p).map .node) =
      applySteps (Scope.of d) rest ((d.document.filter q).map .node) := by
  have each : ((d.document.filter p).map Item.node).mapM (st.apply (Scope.of d)) =
      some ((d.document.filter p).map fun n => (reach n).map .node) := by
    rw [List.mapM_map]
    exact mapM_some fun n _ => apply n
  have ordered : (Scope.of d).inOrder
      ((d.document.filter p).map fun n => (reach n).map Item.node).flatten =
      (d.document.filter q).map .node := by
    refine Scope.inOrder_nodes f q fun i => ?_
    simp only [← List.flatMap_def, List.mem_flatMap, List.mem_filter, f.mem_document_iff,
      List.mem_map]
    constructor
    · rintro ⟨n, ⟨inside, fits⟩, m, mem, rfl⟩
      obtain ⟨reached, good⟩ := (leads m).mpr ⟨n, inside, fits, mem⟩
      exact ⟨m, reached, good, rfl⟩
    · rintro ⟨m, reached, good, rfl⟩
      obtain ⟨n, inside, fits, mem⟩ := (leads m).mp ⟨reached, good⟩
      exact ⟨n, ⟨inside, fits⟩, m, mem, rfl⟩
  rw [applySteps, each, Option.bind_eq_bind, Option.bind_some, ordered]

theorem apply_anywhere (s : Scope) (n : NodeId) :
    Step.anywhere.apply s (.node n) = some ((n :: s.dom.descendants n).map .node) := by
  rw [Step.anywhere, Step.apply, applyPredicates]
  simp [Axis.along, Axis.ofNode, NodeTest.holds]

theorem apply_self (s : Scope) (n : NodeId) :
    Step.apply s (.step .self .node []) (.node n) = some [.node n] := by
  rw [Step.apply, applyPredicates]
  rfl

theorem apply_parent (s : Scope) (n : NodeId) :
    Step.apply s (.step .parent .node []) (.node n) =
      some ((s.dom.parent n).toList.map .node) := by
  rw [Step.apply, applyPredicates]
  simp [Axis.along, Axis.ofNode, NodeTest.holds]

/-- The children that a test and conditions hold for. -/
theorem apply_child {α : Type} {expr : α → Expr} {t : α → NodeId → Bool} {xs : List α}
    (decides : ∀ x ∈ xs, Decides s (expr x) (t x)) (test : NodeTest) (n : NodeId) :
    Step.apply s (.step .child test (xs.map expr)) (.node n) =
      some (((s.dom.children n).filter fun m =>
        test.holds s.dom (.node m) && xs.all (t · m)).map .node) := by
  have tested : ((Axis.child.along s.dom (.node n)).filter (test.holds s.dom)) =
      ((s.dom.children n).filter fun m => test.holds s.dom (.node m)).map .node := by
    rw [Axis.along, Axis.ofNode, List.filter_map]
    rfl
  rw [Step.apply, tested, applyPredicates_nodes decides, List.filter_filter]
  simp only [Bool.and_comm]

theorem apply_child_one {condition : Expr} {t : NodeId → Bool} (decides : Decides s condition t)
    (test : NodeTest) (n : NodeId) :
    Step.apply s (.step .child test [condition]) (.node n) =
      some (((s.dom.children n).filter fun m =>
        test.holds s.dom (.node m) && t m).map .node) := by
  have each : Step.apply s (.step .child test ([condition].map id)) (.node n) =
      some (((s.dom.children n).filter fun m =>
        test.holds s.dom (.node m) && [condition].all fun _ => t m).map .node) :=
    apply_child (List.forall_mem_singleton.mpr decides) test n
  simpa using each

/-! ## Steps from a single node -/

theorem applySteps_none (s : Scope) (steps : List Step) : applySteps s steps [] = some [] := by
  induction steps with
  | nil => rw [applySteps]
  | cons st rest ih =>
      rw [applySteps]
      simpa [Scope.inOrder_nil] using ih

/-- A step that leads to one node at most needs no order. -/
theorem applySteps_single {st : Step} {next : Option NodeId}
    (apply : st.apply s (.node n) = some (next.toList.map .node)) (rest : List Step) :
    applySteps s (st :: rest) [.node n] = applySteps s rest (next.toList.map .node) := by
  have few : (next.toList.map Item.node).length ≤ 1 := by
    cases next <;> simp
  rw [applySteps, List.mapM_cons, apply]
  simp [inOrder_of_length few]

/-- From a node of the document two slashes and a condition lead to the elements below it that the
condition holds for, in preorder. -/
theorem applySteps_below (f : d.Forest) {condition : Expr} {t : NodeId → Bool}
    (decides : Decides (.of d) condition t) (inside : d.Connected n) :
    applySteps (.of d) [.anywhere, .step .child .any [condition]] [.node n] =
      some (((d.descendantElements n).filter t).map .node) := by
  have within : ((n :: d.descendants n).map Item.node).Pairwise (Scope.of d).Precedes :=
    (Scope.pairwise_document f).sublist ((f.sublist_document inside).map _)
  have part : (((d.descendantElements n).filter t).map Item.node).Sublist
      ((n :: d.descendants n).map .node) := by
    refine List.Sublist.map _ (List.filter_sublist.trans ?_)
    exact List.filter_sublist.trans (List.sublist_cons_self ..)
  have child (m : NodeId) : Step.apply (.of d) (.step .child .any [condition]) (.node m) =
      some (((d.children m).filter fun c => d.isElement c && t c).map .node) :=
    apply_child_one decides .any m
  have first : [Item.node n].mapM (Step.anywhere.apply (.of d)) =
      some [(n :: d.descendants n).map .node] := by
    rw [List.mapM_cons, apply_anywhere]
    rfl
  have second : ((n :: d.descendants n).map Item.node).mapM
      (Step.apply (.of d) (.step .child .any [condition])) =
      some ((n :: d.descendants n).map fun m =>
        ((d.children m).filter fun c => d.isElement c && t c).map .node) := by
    rw [List.mapM_map]
    exact mapM_some fun m _ => child m
  rw [applySteps_eq first within (by simp), applySteps_eq second (within.sublist part), applySteps]
  intro i
  simp only [Dom.descendantElements, ← List.flatMap_def, List.mem_flatMap, List.mem_map,
    List.mem_filter, f.mem_descendants_iff_children n, Bool.and_eq_true]
  constructor
  · rintro ⟨m, mem, c, ⟨link, element, holds⟩, rfl⟩
    exact ⟨c, ⟨⟨⟨m, mem, link⟩, element⟩, holds⟩, rfl⟩
  · rintro ⟨c, ⟨⟨⟨m, mem, link⟩, element⟩, holds⟩, rfl⟩
    exact ⟨m, mem, c, ⟨link, element, holds⟩, rfl⟩

/-! ## Steps between nodes -/

/-- The step leads from nodes to nodes, and it always does. -/
def Step.Walks (s : Scope) (st : Step) : Prop :=
  ∀ n, ∃ ms : List NodeId, st.apply s (.node n) = some (ms.map .node)

/-- From nodes it leads to all that it leads to from any of them. -/
theorem exists_applySteps_cons {st : Step} {reach : NodeId → List NodeId}
    (apply : ∀ n, st.apply s (.node n) = some ((reach n).map .node)) (rest : List Step)
    (ns : List NodeId) :
    ∃ ms : List NodeId, (∀ m, m ∈ ms ↔ ∃ n ∈ ns, m ∈ reach n) ∧
      applySteps s (st :: rest) (ns.map .node) = applySteps s rest (ms.map .node) := by
  have walked : (ns.map Item.node).mapM (st.apply s) =
      some (ns.map fun n => (reach n).map .node) := by
    rw [List.mapM_map]
    exact mapM_some fun n _ => apply n
  have members (i : Item) : i ∈ s.inOrder (ns.map fun n => (reach n).map Item.node).flatten ↔
      ∃ n ∈ ns, ∃ m ∈ reach n, .node m = i := by
    rw [Scope.mem_inOrder, ← List.flatMap_def, List.mem_flatMap]
    simp only [List.mem_map]
  have nodes : ∀ i ∈ s.inOrder (ns.map fun n => (reach n).map Item.node).flatten,
      i ∈ Set.range Item.node := by
    intro i mem
    obtain ⟨n, -, m, -, rfl⟩ := (members i).mp mem
    exact ⟨m, rfl⟩
  obtain ⟨ms, ordered⟩ := (Set.range_list_map Item.node).ge nodes
  refine ⟨ms, fun m => ?_, ?_⟩
  · have listed := members (.node m)
    rw [← ordered] at listed
    simpa using listed
  · rw [applySteps, walked, ordered]
    rfl

theorem exists_applySteps {steps : List Step} (walks : ∀ st ∈ steps, st.Walks s)
    (ns : List NodeId) :
    ∃ ms : List NodeId, applySteps s steps (ns.map .node) = some (ms.map .node) := by
  induction steps generalizing ns with
  | nil => exact ⟨ns, by rw [applySteps]⟩
  | cons st rest ih =>
      obtain ⟨own, walks⟩ := List.forall_mem_cons.mp walks
      choose next apply using own
      obtain ⟨ms, -, led⟩ := exists_applySteps_cons apply rest ns
      rw [led]
      exact ih walks ms

/-! ## Selected elements -/

/-- The elements among the nodes an expression comes to. -/
theorem select_of_nodes {text : String} {e : Expr} {context : Option NodeId} {ns : List NodeId}
    (read : Expr.parse? text = some e)
    (value : e.eval (.of d) ⟨.node (context.getD Dom.root), 1, 1⟩ = some (.nodes (ns.map .node))) :
    select d text context = .ok (ns.filter d.isElement) := by
  rw [select, read]
  dsimp only [Option.bind_eq_bind, Option.bind_some]
  rw [value]
  refine congrArg Except.ok ?_
  rw [List.filterMap_map, ← List.filterMap_eq_filter]
  rfl

theorem exists_select {text : String} {absolute : Bool} {steps : List Step}
    (read : Expr.parse? text = some (.path absolute steps)) (walks : ∀ st ∈ steps, st.Walks (.of d))
    (context : Option NodeId) : ∃ found, select d text context = .ok found := by
  let start := if absolute then Dom.root else context.getD Dom.root
  obtain ⟨ms, walked⟩ := exists_applySteps walks [start]
  refine ⟨ms.filter d.isElement, select_of_nodes read ?_⟩
  have first : (if absolute then Item.node Dom.root else .node (context.getD Dom.root)) =
      .node start := (apply_ite Item.node ..).symm
  rw [Expr.eval, first]
  exact congrArg (Option.map Value.nodes) walked

end XPath

end BrowserScript
