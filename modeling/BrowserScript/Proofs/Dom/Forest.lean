import BrowserScript.Dom.Basic
import Mathlib.Logic.Relation
import Mathlib.Data.List.Nodup

/-!
Documents whose links make a forest: the document on top, every other node below at most one parent,
and every parent before its children. In a forest the guards of `ancestors` and `tree` never stop a
walk, so both follow the links to their end: upwards from the parent, downwards in preorder.
-/

namespace BrowserScript.Dom

variable {d : Dom} {n m c p a : NodeId} {ns : List NodeId}

structure Forest (d : Dom) : Prop where
  /-- Node 0 is the document. -/
  top : ∃ children, d.nodes[root]? = some ⟨none, children, .document⟩
  /-- Every other node is an element or a text. -/
  kinds : ∀ n < d.size, n = root ∨ d.isElement n ∨ (d.text? n).isSome
  linked : ∀ p c, c ∈ d.children p ↔ d.parent c = some p
  once : ∀ p, (d.children p).Nodup
  later : ∀ c p, d.parent c = some p → p < c
  leaf : ∀ n s, d.text? n = some s → d.children n = []

/-- From a node to its parent. -/
def ChildOf (d : Dom) (c p : NodeId) : Prop := d.parent c = some p

/-- The document can be reached through parents. -/
def Connected (d : Dom) (n : NodeId) : Prop := Relation.ReflTransGen d.ChildOf n root

theorem lt_size_of_parent (h : d.parent c = some p) : c < d.size := by
  by_contra beyond
  have absent : d.nodes[c]? = none := Array.getElem?_eq_none (Nat.le_of_not_lt beyond)
  simp [parent, absent] at h

theorem lt_size_of_isElement (h : d.isElement n) : n < d.size := by
  by_contra beyond
  have absent : d.nodes[n]? = none := Array.getElem?_eq_none (Nat.le_of_not_lt beyond)
  simp [isElement, element?, absent] at h

theorem lt_size_of_children (h : c ∈ d.children p) : p < d.size := by
  by_contra beyond
  have absent : d.nodes[p]? = none := Array.getElem?_eq_none (Nat.le_of_not_lt beyond)
  simp [children, absent] at h

theorem lt_size_of_childOf (h : d.ChildOf c p) : c < d.size := lt_size_of_parent h

theorem childOf_unique : Relator.RightUnique d.ChildOf := by
  intro c p q h h'
  exact Option.some.inj (h.symm.trans h')

namespace Forest

variable (f : d.Forest)
include f

theorem parent_root : d.parent root = none := by
  obtain ⟨cs, h⟩ := f.top
  rw [parent, h]
  rfl

theorem text?_root : d.text? root = none := by
  obtain ⟨cs, h⟩ := f.top
  rw [text?, h]

theorem not_isElement_root : d.isElement root = false := by
  obtain ⟨cs, h⟩ := f.top
  rw [isElement, element?, h]
  rfl

theorem root_lt : root < d.size := by
  obtain ⟨cs, h⟩ := f.top
  obtain ⟨less, -⟩ := Array.getElem?_eq_some_iff.mp h
  exact less

theorem lt_of_childOf (h : d.ChildOf c p) : p < c := f.later c p h

theorem lt_of_transGen (h : Relation.TransGen d.ChildOf n a) : a < n := by
  induction h with
  | single h => exact f.lt_of_childOf h
  | tail _ h ih => exact Nat.lt_trans (f.lt_of_childOf h) ih

theorem le_of_reflTransGen (h : Relation.ReflTransGen d.ChildOf n a) : a ≤ n := by
  induction h with
  | refl => exact Nat.le_refl n
  | tail _ h ih => exact Nat.le_trans (Nat.le_of_lt (f.lt_of_childOf h)) ih

/-! ## Ancestors -/

theorem ancestors_of_parent (h : d.parent n = some p) : d.ancestors n = p :: d.ancestors p := by
  rw [Dom.ancestors, h]
  simp only [f.later n p h, if_true]

omit f in
theorem ancestors_of_none (h : d.parent n = none) : d.ancestors n = [] := by
  rw [Dom.ancestors, h]

theorem mem_ancestors_iff (n a : NodeId) :
    a ∈ d.ancestors n ↔ Relation.TransGen d.ChildOf n a := by
  induction n using Nat.strongRecOn with
  | _ n ih =>
      rw [Relation.TransGen.head'_iff]
      cases h : d.parent n with
      | none =>
          rw [ancestors_of_none h]
          constructor
          · intro mem
            cases mem
          · rintro ⟨p, link, -⟩
            cases h.symm.trans link
      | some p =>
          have less := f.later n p h
          rw [f.ancestors_of_parent h, List.mem_cons, ih p less,
            ← Relation.reflTransGen_iff_eq_or_transGen]
          constructor
          · intro up
            exact ⟨p, h, up⟩
          · rintro ⟨q, link, up⟩
            obtain rfl := Option.some.inj (h.symm.trans link)
            exact up

/-- The ancestors of a node end with the document or with the top of a part that was taken out. -/
theorem getLast?_ancestors (n : NodeId) :
    (d.ancestors n).getLast? = some root ↔ root ∈ d.ancestors n := by
  induction n using Nat.strongRecOn with
  | _ n ih =>
      cases h : d.parent n with
      | none => simp [ancestors_of_none h]
      | some p =>
          rw [f.ancestors_of_parent h, List.getLast?_cons, List.mem_cons]
          have next := ih p (f.later n p h)
          cases above : d.ancestors p with
          | nil =>
              rw [List.getLast?_nil, Option.getD_none, Option.some.injEq]
              simp [eq_comm]
          | cons b bs =>
              have notTop : root ≠ p := by
                rintro rfl
                rw [ancestors_of_none f.parent_root] at above
                cases above
              rw [above] at next
              have last : ((b :: bs).getLast?).getD p = (b :: bs).getLast (by simp) := by
                rw [List.getLast?_eq_some_getLast (by simp)]
                rfl
              rw [List.getLast?_eq_some_getLast (by simp), Option.some.injEq] at next
              rw [last, Option.some.injEq, next]
              simp [notTop]

theorem isConnected_iff (n : NodeId) : d.isConnected n ↔ d.Connected n := by
  rw [isConnected, Bool.or_eq_true, beq_iff_eq, beq_iff_eq, f.getLast?_ancestors,
    f.mem_ancestors_iff, Connected, Relation.reflTransGen_iff_eq_or_transGen, eq_comm]

/-! ## Descendants -/

/-- What holds of a node whose children have it holds of every node. -/
theorem induction_children {P : NodeId → Prop}
    (step : ∀ n, (∀ c ∈ d.children n, P c) → P n) (n : NodeId) : P n := by
  generalize gap : d.size - n = k
  induction k using Nat.strongRecOn generalizing n with
  | _ k ih =>
      apply step
      intro c mem
      have link := (f.linked n c).mp mem
      have less := f.later c n link
      have small := lt_size_of_parent link
      have closer : d.size - c < k := by
        rw [← gap]
        exact Nat.sub_lt_sub_left (Nat.lt_trans less small) less
      exact ih (d.size - c) closer c rfl

theorem tree_eq (n : NodeId) : d.tree n = .node n ((d.children n).map d.tree) := by
  rw [Dom.tree]
  congr 1
  rw [← List.filterMap_eq_map]
  apply List.filterMap_congr
  intro c mem
  have link := (f.linked n c).mp mem
  simp only [f.later c n link, lt_size_of_parent link, and_self, dif_pos, Function.comp_apply]

omit f in
theorem preorderAll_map (g : NodeId → Tree) (ns : List NodeId) :
    Tree.preorderAll (ns.map g) = ns.flatMap fun n => (g n).preorder := by
  induction ns with
  | nil => rfl
  | cons n rest ih => rw [List.map_cons, Tree.preorderAll, ih, List.flatMap_cons]

omit f in
theorem preorder_tree (n : NodeId) : (d.tree n).preorder = n :: d.descendants n := by
  rw [Dom.descendants, Dom.tree, Tree.preorder]
  rfl

/-- Preorder: each child, then all that is below it, before the next child. -/
theorem descendants_eq (n : NodeId) :
    d.descendants n = (d.children n).flatMap fun c => c :: d.descendants c := by
  rw [descendants, f.tree_eq, Tree.children, preorderAll_map]
  simp only [preorder_tree]

theorem mem_descendants_iff (n m : NodeId) :
    m ∈ d.descendants n ↔ Relation.TransGen d.ChildOf m n := by
  induction n using f.induction_children generalizing m with
  | _ n ih =>
      rw [f.descendants_eq, List.mem_flatMap, Relation.TransGen.tail'_iff]
      apply exists_congr
      intro c
      constructor
      · rintro ⟨mem, below⟩
        refine ⟨?_, (f.linked n c).mp mem⟩
        rw [Relation.reflTransGen_iff_eq_or_transGen, ← ih c mem, eq_comm]
        exact List.mem_cons.mp below
      · rintro ⟨up, link⟩
        have mem := (f.linked n c).mpr link
        refine ⟨mem, List.mem_cons.mpr ?_⟩
        rwa [ih c mem, eq_comm, ← Relation.reflTransGen_iff_eq_or_transGen]

theorem mem_descendants_iff_mem_ancestors (n m : NodeId) :
    m ∈ d.descendants n ↔ n ∈ d.ancestors m := by
  rw [f.mem_descendants_iff, f.mem_ancestors_iff]

/-- What is below a node are the children of all that is below it, and its own. -/
theorem mem_descendants_iff_children (n m : NodeId) :
    m ∈ d.descendants n ↔ ∃ p ∈ n :: d.descendants n, m ∈ d.children p := by
  rw [f.mem_descendants_iff, Relation.TransGen.head'_iff]
  refine exists_congr fun p => ?_
  rw [f.linked, List.mem_cons, f.mem_descendants_iff, Relation.reflTransGen_iff_eq_or_transGen,
    eq_comm (a := n), and_comm]
  rfl

/-- Two children of one node have nothing below them in common. -/
theorem eq_of_common (h : d.ChildOf c n) (h' : d.ChildOf p n)
    (up : Relation.ReflTransGen d.ChildOf m c) (up' : Relation.ReflTransGen d.ChildOf m p) :
    c = p := by
  have apart {x y : NodeId} (hx : d.ChildOf x n) (hy : d.ChildOf y n)
      (chain : Relation.ReflTransGen d.ChildOf x y) : x = y := by
    obtain rfl | ⟨z, link, rest⟩ := chain.cases_head
    · rfl
    · obtain rfl := Option.some.inj (link.symm.trans hx)
      exact absurd (f.le_of_reflTransGen rest) (Nat.not_le_of_lt (f.lt_of_childOf hy))
  obtain chain | chain := up.total_of_right_unique childOf_unique up'
  · exact apart h h' chain
  · exact (apart h' h chain).symm

/-- What is below two nodes is below one of them by way of the other. -/
theorem notMem_descendants (other : n ≠ a) (outside : n ∉ d.descendants a)
    (around : a ∉ d.descendants n) (mem : m ∈ d.descendants n) : m ∉ d.descendants a := by
  intro mem'
  have up := ((f.mem_descendants_iff n m).mp mem).to_reflTransGen
  have up' := ((f.mem_descendants_iff a m).mp mem').to_reflTransGen
  obtain chain | chain := up.total_of_right_unique childOf_unique up'
  · obtain same | below := Relation.reflTransGen_iff_eq_or_transGen.mp chain
    · exact other same.symm
    · exact outside ((f.mem_descendants_iff a n).mpr below)
  · obtain same | below := Relation.reflTransGen_iff_eq_or_transGen.mp chain
    · exact other same
    · exact around ((f.mem_descendants_iff n a).mpr below)

theorem nodup_descendants (n : NodeId) : (d.descendants n).Nodup := by
  induction n using f.induction_children with
  | _ n ih =>
      rw [f.descendants_eq, List.nodup_flatMap]
      constructor
      · intro c mem
        refine List.nodup_cons.mpr ⟨fun below => ?_, ih c mem⟩
        exact Nat.lt_irrefl c (f.lt_of_transGen ((f.mem_descendants_iff c c).mp below))
      · refine (f.once n).imp_of_mem ?_
        intro c p mem mem' apart m below below'
        have up {x : NodeId} (below : m ∈ x :: d.descendants x) :
            Relation.ReflTransGen d.ChildOf m x := by
          rw [Relation.reflTransGen_iff_eq_or_transGen, ← f.mem_descendants_iff, eq_comm]
          exact List.mem_cons.mp below
        exact apart (f.eq_of_common ((f.linked n c).mp mem) ((f.linked n p).mp mem')
          (up below) (up below'))

/-- The connected nodes are the document and its descendants. -/
theorem connected_iff (n : NodeId) : d.Connected n ↔ n = root ∨ n ∈ d.descendants root := by
  rw [Connected, Relation.reflTransGen_iff_eq_or_transGen, f.mem_descendants_iff, eq_comm]

theorem lt_size_of_connected (h : d.Connected n) : n < d.size := by
  obtain rfl | ⟨p, link, -⟩ := h.cases_head
  · exact f.root_lt
  · exact lt_size_of_childOf link

/-- A node is part of the document as its parent is. -/
theorem connected_iff_parent (h : d.parent n = some p) : d.Connected n ↔ d.Connected p := by
  constructor
  · intro up
    obtain rfl | ⟨q, link, up⟩ := up.cases_head
    · cases f.parent_root.symm.trans h
    · obtain rfl := Option.some.inj (link.symm.trans h)
      exact up
  · exact .head h

theorem connected_of_mem_ancestors (h : d.Connected n) (above : a ∈ d.ancestors n) :
    d.Connected a := by
  induction h using Relation.ReflTransGen.head_induction_on with
  | refl =>
      rw [ancestors_of_none f.parent_root] at above
      cases above
  | head link up ih =>
      rw [f.ancestors_of_parent link, List.mem_cons] at above
      obtain rfl | above := above
      · exact up
      · exact ih above

theorem root_notMem_descendants (n : NodeId) : root ∉ d.descendants n := by
  intro mem
  exact Nat.not_lt_zero n (f.lt_of_transGen ((f.mem_descendants_iff n root).mp mem))

end Forest

/-- The nodes that are part of the document, in preorder. -/
def document (d : Dom) : List NodeId := (d.tree root).preorder

namespace Forest

variable (f : d.Forest)
include f

theorem mem_document_iff : n ∈ d.document ↔ d.Connected n := by
  rw [document, preorder_tree, List.mem_cons, f.connected_iff]

theorem nodup_document : d.document.Nodup := by
  rw [document, preorder_tree]
  exact List.nodup_cons.mpr ⟨f.root_notMem_descendants root, f.nodup_descendants root⟩

/-! A node and what is below it are listed in the order in which all of the document is. -/

theorem sublist_of_reflTransGen (up : Relation.ReflTransGen d.ChildOf n a) :
    (n :: d.descendants n).Sublist (a :: d.descendants a) := by
  induction up with
  | refl => exact .refl _
  | @tail c p up link ih =>
      have child := (f.linked p c).mpr link
      have part := List.sublist_flatten_of_mem
        (List.mem_map_of_mem (f := fun c => c :: d.descendants c) child)
      rw [← List.flatMap_def, ← f.descendants_eq] at part
      exact (ih.trans part).cons p

theorem sublist_document (inside : d.Connected n) :
    (n :: d.descendants n).Sublist d.document := by
  rw [document, preorder_tree]
  exact f.sublist_of_reflTransGen inside

omit f in
theorem isElement_of_mem_below (mem : n ∈ d.descendantElements a) : d.isElement n :=
  (List.mem_filter.mp mem).2

theorem connected_of_mem_below (inside : d.Connected a) (mem : n ∈ d.descendantElements a) :
    d.Connected n := by
  have below := List.mem_cons_of_mem a (List.mem_filter.mp mem).1
  exact f.mem_document_iff.mp ((f.sublist_document inside).mem below)

theorem children_sublist (n : NodeId) : (d.children n).Sublist (d.descendants n) := by
  rw [f.descendants_eq]
  induction d.children n with
  | nil => exact .slnil
  | cons c cs ih => exact ((ih.trans (List.sublist_append_right ..)).cons_cons c)

end Forest

/-! ## Trees

The tree that a node is in: the document, or a part that was taken out of it. Every node is in one
tree, and two nodes are in the same tree when it has the same top. -/

/-- The top of the tree that a node is in. -/
def topOf (d : Dom) (n : NodeId) : NodeId := (d.ancestors n).getLast?.getD n

/-- The nodes of the tree that a node is in, in preorder. -/
def treeOf (d : Dom) (n : NodeId) : List NodeId := (d.tree (d.topOf n)).preorder

/-- The listed nodes of each tree come once each, in preorder. -/
def InDocumentOrder (d : Dom) (ns : List NodeId) : Prop :=
  ∀ n, ns.filter (· ∈ d.treeOf n) = (d.treeOf n).filter (· ∈ ns)

theorem topOf_of_none (h : d.parent n = none) : d.topOf n = n := by
  rw [topOf, Forest.ancestors_of_none h]
  rfl

namespace Forest

variable (f : d.Forest)
include f

theorem topOf_of_parent (h : d.parent n = some p) : d.topOf n = d.topOf p := by
  rw [topOf, f.ancestors_of_parent h, List.getLast?_cons]
  rfl

theorem topOf_of_reflTransGen (up : Relation.ReflTransGen d.ChildOf n a) :
    d.topOf n = d.topOf a := by
  induction up with
  | refl => rfl
  | tail _ link ih => rw [ih, f.topOf_of_parent link]

theorem parent_topOf (n : NodeId) : d.parent (d.topOf n) = none := by
  induction n using Nat.strongRecOn with
  | _ n ih =>
      cases h : d.parent n with
      | none => rwa [topOf_of_none h]
      | some p =>
          rw [f.topOf_of_parent h]
          exact ih p (f.later n p h)

theorem reflTransGen_topOf (n : NodeId) : Relation.ReflTransGen d.ChildOf n (d.topOf n) := by
  induction n using Nat.strongRecOn with
  | _ n ih =>
      cases h : d.parent n with
      | none =>
          rw [topOf_of_none h]
      | some p =>
          rw [f.topOf_of_parent h]
          exact .head h (ih p (f.later n p h))

theorem mem_treeOf_iff : m ∈ d.treeOf n ↔ d.topOf m = d.topOf n := by
  have up : m ∈ d.treeOf n ↔ Relation.ReflTransGen d.ChildOf m (d.topOf n) := by
    rw [treeOf, preorder_tree, List.mem_cons, f.mem_descendants_iff,
      Relation.reflTransGen_iff_eq_or_transGen, eq_comm]
  rw [up]
  constructor
  · intro up
    rw [f.topOf_of_reflTransGen up, topOf_of_none (f.parent_topOf n)]
  · intro same
    rw [← same]
    exact f.reflTransGen_topOf m

theorem topOf_root : d.topOf root = root := topOf_of_none f.parent_root

theorem connected_iff_topOf : d.Connected n ↔ d.topOf n = root := by
  have whole : d.treeOf root = d.document := by rw [treeOf, f.topOf_root, document]
  rw [← f.mem_document_iff, ← whole, f.mem_treeOf_iff, f.topOf_root]

theorem treeOf_eq_of_mem (mem : m ∈ d.treeOf n) : d.treeOf m = d.treeOf n := by
  rw [treeOf, treeOf, f.mem_treeOf_iff.mp mem]

theorem treeOf_of_connected (h : d.Connected n) : d.treeOf n = d.document := by
  rw [treeOf, f.connected_iff_topOf.mp h, document]

/-- A tree is in the document as a whole or not at all. -/
theorem connected_iff_of_mem_treeOf (mem : m ∈ d.treeOf n) : d.Connected m ↔ d.Connected n := by
  rw [f.connected_iff_topOf, f.connected_iff_topOf, f.mem_treeOf_iff.mp mem]

end Forest

end BrowserScript.Dom
