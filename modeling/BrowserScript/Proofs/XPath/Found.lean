import BrowserScript.Proofs.Dom.Forest
import BrowserScript.Proofs.XPath.Order

/-!
What expressions find, from any node: nodes of its tree and of the document, each once. In the
document they stand in preorder; the nodes of other trees come after, in the order in which they
were made. Main statement: `select_found`.
-/

namespace BrowserScript.XPath

open Dom (NodeId)

variable {d : Dom} {c n : NodeId} {items : List Item}

namespace Scope

/-! ## Places -/

theorem place_of_not_mem (f : d.Forest) (absent : n ∉ d.document) :
    (Scope.of d).place n = d.document.length + n := by
  have entry := getElem?_places f.nodup_document n 0 (Array.replicate d.size none)
  rw [if_neg absent, Array.getElem?_replicate] at entry
  have read : ((Scope.of d).places[n]?).join = none := by
    rw [show (Scope.of d).places[n]? = _ from entry]
    split <;> rfl
  rw [place, read]
  rfl

theorem place_injective (f : d.Forest) {a b : NodeId}
    (same : (Scope.of d).place a = (Scope.of d).place b) : a = b := by
  by_cases memA : a ∈ d.document <;> by_cases memB : b ∈ d.document
  · rw [place_of_mem f memA, place_of_mem f memB] at same
    exact (List.idxOf_inj memA).mp same
  · rw [place_of_mem f memA, place_of_not_mem f memB] at same
    have := List.idxOf_lt_length_of_mem memA
    omega
  · rw [place_of_not_mem f memA, place_of_mem f memB] at same
    have := List.idxOf_lt_length_of_mem memB
    omega
  · rw [place_of_not_mem f memA, place_of_not_mem f memB] at same
    exact Nat.add_left_cancel same

theorem key_injective (f : d.Forest) {a b : Item}
    (same : (Scope.of d).key a = (Scope.of d).key b) : a = b := by
  match a, b with
  | .node a, .node b =>
      obtain ⟨places, -⟩ := Prod.mk.inj same
      rw [place_injective f places]
  | .attribute a i, .attribute b j =>
      obtain ⟨places, indices⟩ := Prod.mk.inj same
      rw [place_injective f places, Nat.succ.inj indices]
  | .node _, .attribute _ _ | .attribute _ _, .node _ => cases (Prod.mk.inj same).2

theorem before_antisymm (f : d.Forest) {a b : Item} (first : (Scope.of d).before a b)
    (second : (Scope.of d).before b a) : a = b := by
  refine key_injective f (Prod.ext ?_ ?_)
  · rw [before_iff] at first second
    omega
  · rw [before_iff] at first second
    omega

theorem pairwise_inOrder (f : d.Forest) (items : List Item) :
    ((Scope.of d).inOrder items).Pairwise (Scope.of d).Precedes := by
  have trans : ∀ a b c, (Scope.of d).before a b → (Scope.of d).before b c →
      (Scope.of d).before a c := fun _ _ _ => before_trans
  have merged := List.pairwise_mergeSort trans (before_total _) items
  have cleaned := pairwise_eraseReps merged fun a _ b _ => before_antisymm f
  exact cleaned.imp fun ⟨first, other⟩ back => other (before_antisymm f first back)

end Scope

/-! ## Steps -/

/-- The node an item belongs to. -/
def Item.owner : Item → NodeId
  | .node n => n
  | .attribute n _ => n

theorem sublist_of_mapM {f : Item × Nat → Option (List Item)}
    (each : ∀ x y, f x = some y → y.Sublist [x.1]) {xs : List (Item × Nat)}
    {kept : List (List Item)} (all : xs.mapM f = some kept) :
    kept.flatten.Sublist (xs.map (·.1)) := by
  induction xs generalizing kept with
  | nil =>
      obtain rfl := Option.some.inj all
      exact .slnil
  | cons x xs ih =>
      rw [List.mapM_cons] at all
      obtain ⟨y, first, all⟩ := Option.bind_eq_some_iff.mp all
      obtain ⟨ys, later, all⟩ := Option.bind_eq_some_iff.mp all
      obtain rfl := Option.some.inj all
      exact (each x y first).append (ih later)

theorem keep_sublist {predicate : Context → Option Value} {kept : List Item}
    (done : keep predicate items = some kept) : kept.Sublist items := by
  obtain ⟨lists, all, done⟩ := Option.bind_eq_some_iff.mp done
  obtain rfl := Option.some.inj done
  have part := sublist_of_mapM ?_ all
  · rwa [List.zipIdx_map_fst] at part
  · intro x y first
    obtain ⟨v, -, first⟩ := Option.bind_eq_some_iff.mp first
    obtain rfl := Option.some.inj first
    split_ifs
    · exact .refl _
    · exact List.nil_sublist _

theorem applyPredicates_sublist {s : Scope} {predicates : List Expr} {kept : List Item}
    (done : applyPredicates s predicates items = some kept) : kept.Sublist items := by
  induction predicates generalizing items with
  | nil =>
      rw [applyPredicates] at done
      obtain rfl := Option.some.inj done
      exact .refl _
  | cons p rest ih =>
      rw [applyPredicates] at done
      obtain ⟨first, found, done⟩ := Option.bind_eq_some_iff.mp done
      exact (ih done).trans (keep_sublist found)

/-- No axis leaves the tree. -/
theorem topOf_ofNode (f : d.Forest) (axis : Axis) :
    ∀ i ∈ axis.ofNode d n, d.topOf i.owner = d.topOf n := by
  have below {m : NodeId} (mem : m ∈ d.descendants n) : d.topOf m = d.topOf n :=
    f.topOf_of_reflTransGen ((f.mem_descendants_iff n m).mp mem).to_reflTransGen
  have above {m : NodeId} (mem : m ∈ d.ancestors n) : d.topOf m = d.topOf n :=
    (f.topOf_of_reflTransGen ((f.mem_ancestors_iff n m).mp mem).to_reflTransGen).symm
  have beside {m : NodeId} (mem : m ∈ ((d.parent n).map d.children).getD []) :
      d.topOf m = d.topOf n := by
    cases link : d.parent n with
    | none =>
        rw [link] at mem
        cases mem
    | some p =>
        rw [link] at mem
        rw [f.topOf_of_parent link, f.topOf_of_parent ((f.linked p m).mp mem)]
  cases axis with
  | child => exact List.forall_mem_map.mpr fun m mem => f.topOf_of_parent ((f.linked n m).mp mem)
  | descendant => exact List.forall_mem_map.mpr fun m => below
  | descendantOrSelf =>
      exact List.forall_mem_map.mpr (List.forall_mem_cons.mpr ⟨rfl, fun m => below⟩)
  | parent =>
      refine List.forall_mem_map.mpr fun m mem => ?_
      exact (f.topOf_of_parent (Option.mem_toList.mp mem)).symm
  | ancestor => exact List.forall_mem_map.mpr fun m => above
  | ancestorOrSelf =>
      exact List.forall_mem_map.mpr (List.forall_mem_cons.mpr ⟨rfl, fun m => above⟩)
  | followingSibling =>
      refine List.forall_mem_map.mpr fun m mem => beside ?_
      exact (List.dropWhile_sublist _).mem (List.mem_of_mem_drop mem)
  | precedingSibling =>
      refine List.forall_mem_map.mpr fun m mem => beside ?_
      exact (List.takeWhile_sublist _).mem (List.mem_reverse.mp mem)
  | self => exact List.forall_mem_singleton.mpr rfl
  | «attribute» =>
      rw [Axis.ofNode]
      split
      · exact List.forall_mem_map.mpr fun j _ => rfl
      · exact List.forall_mem_nil _

theorem topOf_along (f : d.Forest) (axis : Axis) (item : Item) :
    ∀ i ∈ axis.along d item, d.topOf i.owner = d.topOf item.owner := by
  cases item with
  | node n => exact topOf_ofNode f axis
  | «attribute» n j =>
      have up := topOf_ofNode (n := n) f .ancestorOrSelf
      cases axis with
      | self | parent => exact List.forall_mem_singleton.mpr rfl
      | ancestor => exact up
      | ancestorOrSelf => exact List.forall_mem_cons.mpr ⟨rfl, up⟩
      | child | descendant | descendantOrSelf | followingSibling | precedingSibling
      | «attribute» => exact List.forall_mem_nil _

/-! ## Node sets -/

/-- Items in order, each in the tree of a node or in the document. -/
structure Settled (d : Dom) (c : NodeId) (items : List Item) : Prop where
  ordered : items.Pairwise (Scope.of d).Precedes
  within : ∀ i ∈ items, d.topOf i.owner = d.topOf c ∨ d.topOf i.owner = Dom.root

namespace Settled

theorem sublist {kept : List Item} (settled : Settled d c items) (part : kept.Sublist items) :
    Settled d c kept :=
  ⟨settled.ordered.sublist part, fun i mem => settled.within i (part.mem mem)⟩

theorem singleton {i : Item}
    (own : d.topOf i.owner = d.topOf c ∨ d.topOf i.owner = Dom.root) : Settled d c [i] :=
  ⟨List.pairwise_singleton .., List.forall_mem_singleton.mpr own⟩

theorem inOrder (f : d.Forest) (within : ∀ i ∈ items,
    d.topOf i.owner = d.topOf c ∨ d.topOf i.owner = Dom.root) :
    Settled d c ((Scope.of d).inOrder items) :=
  ⟨Scope.pairwise_inOrder f items, fun i mem => within i (Scope.mem_inOrder.mp mem)⟩

end Settled

theorem forall_mem_flatten_of_mapM {α β : Type} {f : α → Option (List β)} {P : β → Prop}
    {xs : List α} {ys : List (List β)} (all : xs.mapM f = some ys)
    (each : ∀ x ∈ xs, ∀ y, f x = some y → ∀ b ∈ y, P b) : ∀ b ∈ ys.flatten, P b := by
  induction xs generalizing ys with
  | nil =>
      obtain rfl := Option.some.inj all
      exact List.forall_mem_nil _
  | cons x xs ih =>
      obtain ⟨first, each⟩ := List.forall_mem_cons.mp each
      rw [List.mapM_cons] at all
      obtain ⟨y, own, all⟩ := Option.bind_eq_some_iff.mp all
      obtain ⟨ys, later, all⟩ := Option.bind_eq_some_iff.mp all
      obtain rfl := Option.some.inj all
      rw [List.flatten_cons]
      exact List.forall_mem_append.mpr ⟨first y own, ih later each⟩

theorem Step.topOf_apply (f : d.Forest) {st : Step} {item : Item} {found : List Item}
    (done : st.apply (Scope.of d) item = some found) :
    ∀ i ∈ found, d.topOf i.owner = d.topOf item.owner := by
  obtain ⟨axis, test, predicates⟩ := st
  intro i mem
  have walked := (applyPredicates_sublist done).mem mem
  exact topOf_along f axis item i (List.mem_filter.mp walked).1

theorem applySteps_settled (f : d.Forest) {steps : List Step} {found : List Item}
    (settled : Settled d c items) (done : applySteps (Scope.of d) steps items = some found) :
    Settled d c found := by
  induction steps generalizing items with
  | nil =>
      rw [applySteps] at done
      obtain rfl := Option.some.inj done
      exact settled
  | cons st rest ih =>
      rw [applySteps] at done
      obtain ⟨lists, all, done⟩ := Option.bind_eq_some_iff.mp done
      refine ih (.inOrder f ?_) done
      refine forall_mem_flatten_of_mapM all fun item mem found walked i mem' => ?_
      rw [st.topOf_apply f walked i mem']
      exact settled.within item mem

/-! ## Expressions -/

theorem Function.apply_ne_nodes {s : Scope} {ctx : Context} {fn : Function} {args : List Value} :
    fn.apply s ctx args ≠ some (.nodes items) := by
  intro same
  cases fn with
  | not | boolean =>
      obtain ⟨v, -, same⟩ := Option.map_eq_some_iff.mp same
      cases same
  | number =>
      cases args <;> cases Option.some.inj same
  | count =>
      unfold apply at same
      dsimp only at same
      split at same <;> cases same
  | _ => cases Option.some.inj same

/-- Whether a value of the expression is a node set. -/
def Expr.isNodeSet : Expr → Bool
  | .union _ | .path .. | .filter .. => true
  | _ => false

theorem Expr.eval_ne_nodes {s : Scope} {ctx : Context} {e : Expr} (other : e.isNodeSet = false) :
    e.eval s ctx ≠ some (.nodes items) := by
  intro done
  cases e with
  | union | path | filter => cases other
  | or a b =>
      rw [Expr.eval] at done
      obtain ⟨x, -, done⟩ := Option.bind_eq_some_iff.mp done
      split at done
      · cases Option.some.inj done
      · obtain ⟨y, -, done⟩ := Option.bind_eq_some_iff.mp done
        cases Option.some.inj done
  | and a b =>
      rw [Expr.eval] at done
      obtain ⟨x, -, done⟩ := Option.bind_eq_some_iff.mp done
      split at done
      · obtain ⟨y, -, done⟩ := Option.bind_eq_some_iff.mp done
        cases Option.some.inj done
      · cases Option.some.inj done
  | compare op a b | add a b | sub a b =>
      rw [Expr.eval] at done
      obtain ⟨x, -, done⟩ := Option.bind_eq_some_iff.mp done
      obtain ⟨y, -, done⟩ := Option.bind_eq_some_iff.mp done
      cases Option.some.inj done
  | literal | number =>
      rw [Expr.eval] at done
      cases Option.some.inj done
  | call fn args =>
      rw [Expr.eval] at done
      obtain ⟨values, -, done⟩ := Option.bind_eq_some_iff.mp done
      exact Function.apply_ne_nodes done

/-- Whatever is a node set is settled. -/
def Value.Settled (d : Dom) (c : NodeId) (v : Value) : Prop :=
  ∀ items, v = .nodes items → XPath.Settled d c items

theorem Value.Settled.of_nodes? {v : Value} (settled : v.Settled d c)
    (nodes : v.nodes? = some items) : XPath.Settled d c items := by
  cases v with
  | nodes own =>
      obtain rfl := Option.some.inj nodes
      exact settled own rfl
  | _ => cases nodes

mutual

theorem Expr.eval_settled (f : d.Forest) :
    (e : Expr) → {ctx : Context} → {v : Value} →
      e.eval (Scope.of d) ctx = some v → v.Settled d ctx.item.owner
  | .union parts, ctx, v, done => by
      rw [Expr.eval] at done
      obtain ⟨values, all, done⟩ := Option.bind_eq_some_iff.mp done
      obtain ⟨lists, nodes, done⟩ := Option.bind_eq_some_iff.mp done
      obtain rfl := Option.some.inj done
      rintro _ ⟨⟩
      refine .inOrder f (forall_mem_flatten_of_mapM nodes fun v mem items own => ?_)
      exact ((evalAll_settled f parts all v mem).of_nodes? own).within
  | .path absolute steps, ctx, v, done => by
      rw [Expr.eval] at done
      obtain ⟨items, walked, rfl⟩ := Option.map_eq_some_iff.mp done
      rintro _ ⟨⟩
      refine applySteps_settled f (.singleton ?_) walked
      split_ifs
      · exact .inr f.topOf_root
      · exact .inl rfl
  | .filter primary predicates steps, ctx, v, done => by
      rw [Expr.eval] at done
      obtain ⟨value, first, done⟩ := Option.bind_eq_some_iff.mp done
      obtain ⟨items, nodes, done⟩ := Option.bind_eq_some_iff.mp done
      obtain ⟨kept, part, done⟩ := Option.bind_eq_some_iff.mp done
      obtain ⟨found, walked, rfl⟩ := Option.map_eq_some_iff.mp done
      rintro _ ⟨⟩
      have within := ((Expr.eval_settled f primary first).of_nodes? nodes).within
      exact applySteps_settled f ((Settled.inOrder f within).sublist (applyPredicates_sublist part))
        walked
  | .or _ _, _, _, done | .and _ _, _, _, done | .compare _ _ _, _, _, done
  | .add _ _, _, _, done | .sub _ _, _, _, done | .literal _, _, _, done | .number _, _, _, done
  | .call _ _, _, _, done =>
      fun _ same => absurd (same ▸ done) (Expr.eval_ne_nodes rfl)

theorem evalAll_settled (f : d.Forest) :
    (es : List Expr) → {ctx : Context} → {vs : List Value} →
      evalAll (Scope.of d) es ctx = some vs → ∀ v ∈ vs, v.Settled d ctx.item.owner
  | [], ctx, vs, done => by
      rw [evalAll] at done
      obtain rfl := Option.some.inj done
      exact List.forall_mem_nil _
  | e :: rest, ctx, vs, done => by
      rw [evalAll] at done
      obtain ⟨v, first, done⟩ := Option.bind_eq_some_iff.mp done
      obtain ⟨values, later, done⟩ := Option.bind_eq_some_iff.mp done
      obtain rfl := Option.some.inj done
      exact List.forall_mem_cons.mpr ⟨Expr.eval_settled f e first, evalAll_settled f rest later⟩

end

/-! ## Elements -/

namespace Scope

/-- The first node comes before the second where node sets are put in order. -/
def Earlier (s : Scope) (a b : NodeId) : Prop := s.place a < s.place b

instance (s : Scope) : Std.Antisymm s.Earlier where
  antisymm _ _ first second := absurd second (Nat.lt_asymm first)

instance (s : Scope) : Std.Irrefl s.Earlier where
  irrefl _ := Nat.lt_irrefl _

theorem precedes_node_iff {s : Scope} {a b : NodeId} :
    s.Precedes (.node a) (.node b) ↔ s.Earlier a b := by
  rw [Precedes, before_iff, key, key, Earlier]
  dsimp only
  omega

theorem pairwise_earlier_document (f : d.Forest) : d.document.Pairwise (Scope.of d).Earlier :=
  (List.pairwise_map.mp (pairwise_document f)).imp precedes_node_iff.mp

theorem earlier_iff_lt (f : d.Forest) {a b : NodeId} (outsideA : a ∉ d.document)
    (outsideB : b ∉ d.document) : (Scope.of d).Earlier a b ↔ a < b := by
  rw [Earlier, place_of_not_mem f outsideA, place_of_not_mem f outsideB]
  exact Nat.add_lt_add_iff_left

/-- All nodes by their places. -/
theorem pairwise_earlier_all (f : d.Forest) : (d.document ++
    (List.range d.size).filter (· ∉ d.document)).Pairwise (Scope.of d).Earlier := by
  refine List.pairwise_append.mpr ⟨pairwise_earlier_document f, ?_, fun a inside b outside => ?_⟩
  · refine ((List.pairwise_lt_range).sublist List.filter_sublist).imp_of_mem ?_
    intro a b memA memB less
    refine (earlier_iff_lt f ?_ ?_).mpr less
    · simpa using (List.mem_filter.mp memA).2
    · simpa using (List.mem_filter.mp memB).2
  · have absent : b ∉ d.document := by simpa using (List.mem_filter.mp outside).2
    have := List.idxOf_lt_length_of_mem inside
    rw [Earlier, place_of_mem f inside, place_of_not_mem f absent]
    omega

end Scope

section Ordered

variable (f : d.Forest) {ns : List NodeId} (ordered : ns.Pairwise (Scope.of d).Earlier)
include f ordered

/-- What is in order is the document's nodes in preorder, then others as they were made. -/
theorem eq_of_ordered (small : ∀ n ∈ ns, n < d.size) :
    ns = d.document.filter (· ∈ ns) ++
      (List.range d.size).filter fun n => n ∉ d.document ∧ n ∈ ns := by
  have all := (Scope.pairwise_earlier_all f).sublist (List.filter_sublist (p := (· ∈ ns)))
  have same := List.Pairwise.eq_of_mem_iff ordered all fun n => by
    have := small n
    simp
    tauto
  rw [List.filter_append, List.filter_filter] at same
  refine same.trans (congrArg (d.document.filter (· ∈ ns) ++ ·) (List.filter_congr fun n _ => ?_))
  rw [Bool.decide_and, Bool.and_comm]

omit f in
/-- Of one tree, the nodes in order are in preorder if preorder is the order. -/
theorem filter_treeOf_eq_iff (n : NodeId) :
    ns.filter (· ∈ d.treeOf n) = (d.treeOf n).filter (· ∈ ns) ↔
      ((d.treeOf n).filter (· ∈ ns)).Pairwise (Scope.of d).Earlier := by
  constructor
  · intro same
    rw [← same]
    exact ordered.sublist List.filter_sublist
  · intro later
    refine List.Pairwise.eq_of_mem_iff (ordered.sublist List.filter_sublist) later fun m => ?_
    simp [and_comm]

end Ordered

theorem element_of_kept {i : Item} (kept : (match i with
      | .node n => if d.isElement n then some n else none
      | .attribute .. => none) = some n) : i = .node n ∧ d.isElement n := by
  cases i with
  | node m =>
      obtain ⟨element, own⟩ := Option.ite_none_right_eq_some.mp kept
      obtain rfl := Option.some.inj own
      exact ⟨rfl, element⟩
  | «attribute» => cases kept

/-- Elements of the tree of the context and of the document are found, each once. -/
theorem select_found (f : d.Forest) {text : String} {context : Option NodeId} {found : List NodeId}
    (selects : select d text context = .ok found) :
    (∀ n ∈ found, d.isElement n ∧
      (n ∈ d.treeOf (context.getD Dom.root) ∨ n ∈ d.document)) ∧
    found.Pairwise (Scope.of d).Earlier := by
  unfold select at selects
  dsimp only at selects
  split at selects
  · rename_i items value
    obtain rfl := Except.ok.inj selects
    obtain ⟨e, -, value⟩ := Option.bind_eq_some_iff.mp value
    obtain ⟨v, evaluated, nodes⟩ := Option.bind_eq_some_iff.mp value
    obtain ⟨ordered, within⟩ := (e.eval_settled f evaluated).of_nodes? nodes
    constructor
    · intro n mem
      obtain ⟨i, mem, kept⟩ := List.mem_filterMap.mp mem
      obtain ⟨rfl, element⟩ := element_of_kept kept
      refine ⟨element, ?_⟩
      rw [f.mem_treeOf_iff, f.mem_document_iff, f.connected_iff_topOf]
      exact within _ mem
    · refine List.pairwise_filterMap.mpr (ordered.imp fun before a keptA b keptB => ?_)
      obtain ⟨rfl, -⟩ := element_of_kept keptA
      obtain ⟨rfl, -⟩ := element_of_kept keptB
      exact Scope.precedes_node_iff.mp before
  · cases selects

/-- The elements found are in document order if the context is in the document, and if not, when
those of its tree were made in that order. -/
theorem inDocumentOrder_iff (f : d.Forest) {text : String} {context : Option NodeId}
    {found : List NodeId} (selects : select d text context = .ok found) :
    d.InDocumentOrder found ↔ d.Connected (context.getD Dom.root) ∨
      ((d.treeOf (context.getD Dom.root)).filter (· ∈ found)).Pairwise (· < ·) := by
  obtain ⟨within, ordered⟩ := select_found f selects
  generalize context.getD Dom.root = c at within
  have detached (outside : ¬ d.Connected c) :
      ((d.treeOf c).filter (· ∈ found)).Pairwise (Scope.of d).Earlier ↔
        ((d.treeOf c).filter (· ∈ found)).Pairwise (· < ·) := by
    have absent {m : NodeId} (mem : m ∈ (d.treeOf c).filter (· ∈ found)) : m ∉ d.document := by
      rw [f.mem_document_iff, f.connected_iff_of_mem_treeOf (List.mem_filter.mp mem).1]
      exact outside
    exact List.Pairwise.iff_of_mem fun memA memB =>
      Scope.earlier_iff_lt f (absent memA) (absent memB)
  constructor
  · intro inOrder
    by_cases inside : d.Connected c
    · exact .inl inside
    · exact .inr ((detached inside).mp ((filter_treeOf_eq_iff ordered c).mp (inOrder c)))
  · intro later n
    rw [filter_treeOf_eq_iff ordered]
    by_cases inside : d.Connected n
    · rw [f.treeOf_of_connected inside]
      exact (Scope.pairwise_earlier_document f).sublist List.filter_sublist
    by_cases some : ∃ m ∈ d.treeOf n, m ∈ found
    · -- what is found outside of the document is in the tree of the context
      obtain ⟨m, mem, listed⟩ := some
      have apart : ¬ d.Connected m := fun up => inside ((f.connected_iff_of_mem_treeOf mem).mp up)
      have near := (within m listed).2.resolve_right fun up => apart (f.mem_document_iff.mp up)
      have same := (f.treeOf_eq_of_mem mem).symm.trans (f.treeOf_eq_of_mem near)
      have outside : ¬ d.Connected c := fun up =>
        apart ((f.connected_iff_of_mem_treeOf near).mpr up)
      rw [same]
      exact (detached outside).mpr (later.resolve_left outside)
    · have none : (d.treeOf n).filter (· ∈ found) = [] := by
        rw [List.filter_eq_nil_iff]
        intro m mem listed
        exact some ⟨m, mem, of_decide_eq_true listed⟩
      rw [none]
      exact .nil

end BrowserScript.XPath
