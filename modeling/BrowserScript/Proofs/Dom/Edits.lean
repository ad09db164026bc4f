import BrowserScript.Dom.Markup
import BrowserScript.Proofs.Dom.Forest
import BrowserScript.Proofs.Dom.Frame

/-!
Edits of a document: a new last child, a node that leaves its parent, an element that changes in
itself. Everything that happens to a document without another one being loaded is made of these, so
what an edit keeps is kept for good: the links make a forest, the attributes of an element have
different names, a node stays what it was made as, and one that left the document does not come
back.
-/

namespace BrowserScript.Dom

variable {d d' d'' : Dom} {n m k p : NodeId} {kind : Kind}

def Element.names (e : Element) : List String := e.attributes.map (·.1)

/-- What a node may be made as. -/
def Kind.Fresh : Kind → Prop
  | .document => False
  | .element e => e.names.Nodup
  | .text _ => True

inductive Edit (d : Dom) : Dom → Prop
  | create (parent : NodeId) (kind : Kind) (there : parent < d.size) (inner : d.text? parent = none)
      (fresh : kind.Fresh) : Edit d (d.create parent kind)
  | detach (n : NodeId) : Edit d (d.detach n)
  | change (n : NodeId) (f : Element → Element) (tag : ∀ e, (f e).tag = e.tag)
      (names : ∀ e, e.names.Nodup → (f e).names.Nodup) : Edit d (d.modifyElement n f)

abbrev Edits : Dom → Dom → Prop := Relation.ReflTransGen Edit

/-- What a handle can name: the document or an element. -/
def Named (d : Dom) (n : NodeId) : Prop := n < d.size ∧ (n = root ∨ d.isElement n)

/-- The attributes of every element have different names. -/
def Distinct (d : Dom) : Prop := ∀ n e, d.element? n = some e → e.names.Nodup

/-! ## Kinds -/

theorem kind_cases (same : d'.nodes[m]?.map (·.kind) = d.nodes[n]?.map (·.kind)) :
    d'.nodes[m]? = none ∧ d.nodes[n]? = none ∨ ∃ up below up' below' kind,
      d'.nodes[m]? = some ⟨up, below, kind⟩ ∧ d.nodes[n]? = some ⟨up', below', kind⟩ := by
  revert same
  rcases d'.nodes[m]? with _ | ⟨up, below, kind⟩ <;>
    rcases d.nodes[n]? with _ | ⟨up', below', kind'⟩ <;> intro same
  · exact .inl ⟨rfl, rfl⟩
  · cases same
  · cases same
  · obtain rfl : kind = kind' := Option.some.inj same
    exact .inr ⟨up, below, up', below', kind, rfl, rfl⟩

theorem element?_of_kind (same : d'.nodes[m]?.map (·.kind) = d.nodes[n]?.map (·.kind)) :
    d'.element? m = d.element? n := by
  rw [element?, element?]
  obtain ⟨h, h'⟩ | ⟨up, below, up', below', kind, h, h'⟩ := kind_cases same
  · rw [h, h']
  · rw [h, h']
    cases kind <;> rfl

theorem text?_of_kind (same : d'.nodes[m]?.map (·.kind) = d.nodes[n]?.map (·.kind)) :
    d'.text? m = d.text? n := by
  rw [text?, text?]
  obtain ⟨h, h'⟩ | ⟨up, below, up', below', kind, h, h'⟩ := kind_cases same
  · rw [h, h']
  · rw [h, h']
    cases kind <;> rfl

/-! ## New nodes -/

theorem size_create (d : Dom) (p : NodeId) (kind : Kind) : (d.create p kind).size = d.size + 1 := by
  simp [create, modify, size]

theorem node_create (there : p < d.size) (kind : Kind) (k : NodeId) :
    (d.create p kind).nodes[k]? =
      if k = d.size then some ⟨some p, [], kind⟩
      else if p = k then
        d.nodes[k]?.map fun node => { node with children := node.children ++ [d.size] }
      else d.nodes[k]? := by
  rw [create, node_modify, Array.getElem?_push]
  by_cases new : k = d.size
  · have apart : p ≠ k := Nat.ne_of_lt (new ▸ there)
    rw [if_neg apart, if_pos new, if_pos (show k = d.nodes.size from new)]
  · rw [if_neg new, if_neg (show k ≠ d.nodes.size from new)]

theorem parent_create (there : p < d.size) (kind : Kind) (k : NodeId) :
    (d.create p kind).parent k = if k = d.size then some p else d.parent k := by
  rw [parent, node_create there]
  by_cases new : k = d.size
  · rw [if_pos new, if_pos new]
    rfl
  · rw [if_neg new, if_neg new, parent]
    split
    · rw [Option.bind_map]
      rfl
    · rfl

theorem children_create (there : p < d.size) (kind : Kind) (k : NodeId) :
    (d.create p kind).children k =
      if k = d.size then [] else if p = k then d.children k ++ [d.size] else d.children k := by
  rw [children, node_create there]
  by_cases new : k = d.size
  · rw [if_pos new, if_pos new]
    rfl
  · rw [if_neg new, if_neg new, children]
    split
    · rename_i here
      subst here
      have known : d.nodes[p]? = some d.nodes[p] := Array.getElem?_eq_getElem there
      rw [known]
      rfl
    · rfl

theorem kind_create_of_ne (there : p < d.size) (kind : Kind) (old : k ≠ d.size) :
    (d.create p kind).nodes[k]?.map (·.kind) = d.nodes[k]?.map (·.kind) := by
  rw [node_create there, if_neg old]
  split
  · rw [Option.map_map]
    rfl
  · rfl

theorem element?_create_of_ne (there : p < d.size) (kind : Kind) (old : k ≠ d.size) :
    (d.create p kind).element? k = d.element? k :=
  element?_of_kind (kind_create_of_ne there kind old)

theorem text?_create_of_ne (there : p < d.size) (kind : Kind) (old : k ≠ d.size) :
    (d.create p kind).text? k = d.text? k :=
  text?_of_kind (kind_create_of_ne there kind old)

theorem element?_create_self (there : p < d.size) (kind : Kind) :
    (d.create p kind).element? d.size = match kind with | .element e => some e | _ => none := by
  rw [element?, node_create there, if_pos rfl]
  cases kind <;> rfl

theorem text?_create_self (there : p < d.size) (kind : Kind) :
    (d.create p kind).text? d.size = match kind with | .text s => some s | _ => none := by
  rw [text?, node_create there, if_pos rfl]
  cases kind <;> rfl

/-! ## Nodes that leave their parent -/

theorem size_detach (d : Dom) (n : NodeId) : (d.detach n).size = d.size := by
  unfold detach
  split <;> simp [modify, size]

theorem parent_detach (d : Dom) (n k : NodeId) :
    (d.detach n).parent k = if n = k then none else d.parent k := by
  unfold detach
  cases above : d.parent n with
  | none =>
      by_cases here : n = k
      · rw [if_pos here, ← here, above]
      · rw [if_neg here]
  | some p =>
      simp only [parent, node_modify]
      by_cases here : n = k
      · rw [if_pos here, if_pos here]
        split <;> cases d.nodes[k]? <;> rfl
      · rw [if_neg here, if_neg here]
        split <;> cases d.nodes[k]? <;> rfl

theorem Forest.children_detach (f : d.Forest) (n k : NodeId) :
    (d.detach n).children k = (d.children k).filter (· != n) := by
  -- only the parent lists the node
  have unlisted (h : d.parent n ≠ some k) : (d.children k).filter (· != n) = d.children k := by
    rw [List.filter_eq_self]
    intro c mem
    have link := (f.linked k c).mp mem
    rw [bne_iff_ne]
    rintro rfl
    exact h link
  unfold detach
  cases above : d.parent n with
  | none => exact (unlisted (by rw [above]; simp)).symm
  | some p =>
      by_cases here : p = k
      · subst here
        simp only [children, node_modify, if_true]
        split <;> cases d.nodes[p]? <;> rfl
      · rw [unlisted (by rw [above]; simpa using here)]
        simp only [children, node_modify, if_neg here]
        split <;> cases d.nodes[k]? <;> rfl

theorem kind_detach (d : Dom) (n k : NodeId) :
    (d.detach n).nodes[k]?.map (·.kind) = d.nodes[k]?.map (·.kind) := by
  unfold detach
  split
  · rfl
  · rw [node_modify, node_modify]
    split <;> split <;> simp only [Option.map_map, Function.comp_def]

theorem element?_detach (d : Dom) (n k : NodeId) : (d.detach n).element? k = d.element? k :=
  element?_of_kind (d.kind_detach n k)

theorem text?_detach (d : Dom) (n k : NodeId) : (d.detach n).text? k = d.text? k :=
  text?_of_kind (d.kind_detach n k)

/-! ## Changed elements -/

/-- Nothing but the tag needs to stay for the places and texts to be the same. -/
theorem places_modifyElement (d : Dom) (n : NodeId) {f : Element → Element}
    (tag : ∀ e, (f e).tag = e.tag) :
    Agrees (fun _ _ => False) (fun _ _ => False) (fun _ => False) d (d.modifyElement n f) :=
  d.agrees_modifyElement tag (fun _ _ h => h.elim) (fun _ _ h => h.elim) fun _ h => h.elim

/-! ## What an edit keeps -/

theorem top_of_parts (nonempty : 0 < d'.size) (parent : d'.parent root = none)
    (element : d'.isElement root = false) (text : d'.text? root = none) :
    ∃ children, d'.nodes[root]? = some ⟨none, children, .document⟩ := by
  have known : d'.nodes[root]? = some d'.nodes[root] := Array.getElem?_eq_getElem nonempty
  rcases h : d'.nodes[root] with ⟨up, children, _ | e | s⟩
  · rw [h] at known
    refine ⟨children, ?_⟩
    rw [known]
    simp only [Dom.parent, known, Option.bind_some] at parent
    rw [parent]
  · simp [isElement, element?, known, h] at element
  · simp [text?, known, h] at text

theorem isElement_eq_of_tag (h : d'.tag? k = d.tag? n) : d'.isElement k = d.isElement n := by
  have tags := congrArg Option.isSome h
  simpa [tag?, isElement] using tags

namespace Forest

theorem size_notMem_children (f : d.Forest) (q : NodeId) : d.size ∉ d.children q := by
  intro mem
  exact Nat.lt_irrefl d.size (lt_size_of_parent ((f.linked q d.size).mp mem))

theorem linked_create (f : d.Forest) (there : p < d.size) (kind : Kind) (q c : NodeId) :
    c ∈ (d.create p kind).children q ↔ (d.create p kind).parent c = some q := by
  rw [children_create there, parent_create there]
  by_cases newParent : q = d.size
  · subst newParent
    have unused : d.parent c ≠ some d.size := by
      intro link
      have less := f.later c d.size link
      exact Nat.lt_asymm less (lt_size_of_parent link)
    have apart : p ≠ d.size := Nat.ne_of_lt there
    rw [if_pos rfl]
    split <;> simp [apart, unused]
  · rw [if_neg newParent]
    by_cases newChild : c = d.size
    · subst newChild
      have unlisted := f.size_notMem_children q
      rw [if_pos rfl]
      split <;> simp_all
    · rw [if_neg newChild, ← f.linked q c]
      split <;> simp [newChild]

theorem create (f : d.Forest) (there : p < d.size) (inner : d.text? p = none)
    (fresh : kind.Fresh) : (d.create p kind).Forest where
  top := by
    have old : root ≠ d.size := Nat.ne_of_lt f.root_lt
    refine top_of_parts ?_ ?_ ?_ ?_
    · rw [size_create]
      exact Nat.succ_pos _
    · rw [parent_create there, if_neg old, f.parent_root]
    · rw [isElement, element?_create_of_ne there kind old]
      exact f.not_isElement_root
    · rw [text?_create_of_ne there kind old, f.text?_root]
  kinds n small := by
    by_cases new : n = d.size
    · subst new
      refine .inr ?_
      rw [isElement, element?_create_self there, text?_create_self there]
      cases kind with
      | document => exact fresh.elim
      | element e => exact .inl rfl
      | text s => exact .inr rfl
    · rw [isElement, element?_create_of_ne there kind new, text?_create_of_ne there kind new]
      rw [size_create] at small
      exact f.kinds n (Nat.lt_of_le_of_ne (Nat.le_of_lt_succ small) new)
  linked := f.linked_create there kind
  once q := by
    rw [children_create there]
    split
    · exact List.nodup_nil
    · split
      · refine List.nodup_append.mpr ⟨f.once q, List.nodup_singleton _, ?_⟩
        intro a mem b mem' eq
        obtain rfl := List.mem_singleton.mp mem'
        exact f.size_notMem_children q (eq ▸ mem)
      · exact f.once q
  later c q link := by
    rw [parent_create there] at link
    split at link
    · rename_i new
      obtain rfl := Option.some.inj link
      exact new ▸ there
    · exact f.later c q link
  leaf n s text := by
    rw [children_create there]
    split
    · rfl
    · rename_i old
      rw [text?_create_of_ne there kind old] at text
      have apart : p ≠ n := by
        rintro rfl
        rw [inner] at text
        cases text
      rw [if_neg apart]
      exact f.leaf n s text

theorem detach (f : d.Forest) (n : NodeId) : (d.detach n).Forest where
  top := by
    refine top_of_parts ?_ ?_ ?_ ?_
    · rw [size_detach]
      exact f.root_lt
    · rw [parent_detach, f.parent_root, ite_self]
    · rw [isElement, element?_detach]
      exact f.not_isElement_root
    · rw [text?_detach, f.text?_root]
  kinds k small := by
    rw [isElement, element?_detach, text?_detach]
    rw [size_detach] at small
    exact f.kinds k small
  linked q c := by
    rw [f.children_detach, parent_detach, List.mem_filter, f.linked, bne_iff_ne]
    by_cases here : n = c
    · simp [here]
    · simp [here, eq_comm]
  once q := by
    rw [f.children_detach]
    exact (f.once q).filter _
  later c q link := by
    rw [parent_detach] at link
    split at link
    · cases link
    · exact f.later c q link
  leaf k s text := by
    rw [text?_detach] at text
    rw [f.children_detach, f.leaf k s text, List.filter_nil]

theorem of_agrees {A Q : NodeId → String → Prop} {B : NodeId → Prop} (f : d.Forest)
    (same : Agrees A Q B d d') : d'.Forest where
  top := by
    refine top_of_parts ?_ ?_ ?_ ?_
    · rw [same.size]
      exact f.root_lt
    · rw [same.parent, f.parent_root]
    · rw [same.isElement, f.not_isElement_root]
    · rw [same.text, f.text?_root]
  kinds k small := by
    rw [same.isElement, same.text]
    exact f.kinds k (same.size ▸ small)
  linked q c := by
    rw [same.children, same.parent]
    exact f.linked q c
  once q := by
    rw [same.children]
    exact f.once q
  later c q link := f.later c q ((same.parent c).symm.trans link)
  leaf k s text := by
    rw [same.children]
    exact f.leaf k s ((same.text k).symm.trans text)

end Forest

theorem forest_empty : empty.Forest where
  top := ⟨[], rfl⟩
  kinds n small := .inl (Nat.lt_one_iff.mp small)
  linked q c := by
    have noChild : empty.children q = [] := by cases q <;> rfl
    have noParent : empty.parent c = none := by cases c <;> rfl
    simp [noChild, noParent]
  once q := by
    have noChild : empty.children q = [] := by cases q <;> rfl
    rw [noChild]
    exact List.nodup_nil
  later c q link := by
    have noParent : empty.parent c = none := by cases c <;> rfl
    cases noParent.symm.trans link
  leaf n s text := by cases n <;> rfl

theorem distinct_empty : empty.Distinct := by
  intro n e h
  cases n <;> cases h

namespace Edit

theorem forest (edit : Edit d d') (f : d.Forest) : d'.Forest := by
  cases edit with
  | create p kind there inner fresh => exact f.create there inner fresh
  | detach n => exact f.detach n
  | change n g tag names => exact f.of_agrees (d.places_modifyElement n tag)

theorem distinct (edit : Edit d d') (h : d.Distinct) : d'.Distinct := by
  intro k e found
  cases edit with
  | create p kind there inner fresh =>
      by_cases new : k = d.size
      · subst new
        rw [element?_create_self there] at found
        cases kind with
        | element own =>
            obtain rfl := Option.some.inj found
            exact fresh
        | document | text s => cases found
      · rw [element?_create_of_ne there kind new] at found
        exact h k e found
  | detach n =>
      rw [element?_detach] at found
      exact h k e found
  | change n g tag names =>
      rw [element?_modifyElement] at found
      split at found
      · obtain ⟨own, known, rfl⟩ := Option.map_eq_some_iff.mp found
        exact names own (h k own known)
      · exact h k e found

theorem size_le (edit : Edit d d') : d.size ≤ d'.size := by
  cases edit with
  | create p kind there inner fresh =>
      rw [size_create]
      exact Nat.le_succ _
  | detach n => exact Nat.le_of_eq (d.size_detach n).symm
  | change n g tag names => exact Nat.le_of_eq (d.places_modifyElement n tag).size.symm

/-- A node stays what it was made as. -/
theorem tag (edit : Edit d d') (small : n < d.size) : d'.tag? n = d.tag? n := by
  cases edit with
  | create p kind there inner fresh =>
      rw [tag?, element?_create_of_ne there kind (Nat.ne_of_lt small), tag?]
  | detach k => rw [tag?, element?_detach, tag?]
  | change k g tag names => exact (d.places_modifyElement k tag).tag n

theorem text (edit : Edit d d') (small : n < d.size) : d'.text? n = d.text? n := by
  cases edit with
  | create p kind there inner fresh => exact text?_create_of_ne there kind (Nat.ne_of_lt small)
  | detach k => exact text?_detach d k n
  | change k g tag names => exact (d.places_modifyElement k tag).text n

/-- No node gets another parent. -/
theorem childOf (edit : Edit d d') (small : n < d.size) (link : d'.ChildOf n p) :
    d.ChildOf n p := by
  cases edit with
  | create q kind there inner fresh =>
      rw [ChildOf, parent_create there, if_neg (Nat.ne_of_lt small)] at link
      exact link
  | detach k =>
      rw [ChildOf, parent_detach] at link
      split at link
      · cases link
      · exact link
  | change k g tag names => exact ((d.places_modifyElement k tag).parent n).symm.trans link

end Edit

namespace Edits

theorem forest (edits : Edits d d') (f : d.Forest) : d'.Forest := by
  induction edits with
  | refl => exact f
  | tail _ edit ih => exact edit.forest ih

theorem distinct (edits : Edits d d') (h : d.Distinct) : d'.Distinct := by
  induction edits with
  | refl => exact h
  | tail _ edit ih => exact edit.distinct ih

theorem size_le (edits : Edits d d') : d.size ≤ d'.size := by
  induction edits with
  | refl => exact Nat.le_refl _
  | tail _ edit ih => exact Nat.le_trans ih edit.size_le

theorem tag (edits : Edits d d') (small : n < d.size) : d'.tag? n = d.tag? n := by
  induction edits with
  | refl => rfl
  | tail before edit ih =>
      exact (edit.tag (Nat.lt_of_lt_of_le small (Edits.size_le before))).trans ih

theorem text (edits : Edits d d') (small : n < d.size) : d'.text? n = d.text? n := by
  induction edits with
  | refl => rfl
  | tail before edit ih =>
      exact (edit.text (Nat.lt_of_lt_of_le small (Edits.size_le before))).trans ih

theorem childOf (edits : Edits d d') (small : n < d.size) (link : d'.ChildOf n p) :
    d.ChildOf n p := by
  induction edits with
  | refl => exact link
  | tail before edit ih =>
      exact ih (edit.childOf (Nat.lt_of_lt_of_le small (Edits.size_le before)) link)

theorem named (edits : Edits d d') (h : d.Named n) : d'.Named n := by
  obtain ⟨small, kind⟩ := h
  refine ⟨Nat.lt_of_lt_of_le small edits.size_le, kind.imp_right fun element => ?_⟩
  rw [isElement_eq_of_tag (edits.tag small)]
  exact element

/-- A node that is not connected stays so. -/
theorem connected (edits : Edits d d') (f : d.Forest) (small : n < d.size)
    (h : d'.Connected n) : d.Connected n := by
  induction h using Relation.ReflTransGen.head_induction_on with
  | refl => exact .refl
  | head link _ ih =>
      have own := edits.childOf small link
      exact .head own (ih (Nat.lt_trans (f.lt_of_childOf own) small))

end Edits

theorem Forest.text?_of_named (f : d.Forest) (h : d.Named n) : d.text? n = none := by
  obtain ⟨-, rfl | element⟩ := h
  · exact f.text?_root
  · rw [isElement] at element
    obtain ⟨e, found⟩ := Option.isSome_iff_exists.mp element
    rw [element?] at found
    rw [text?]
    split at found
    · rename_i known
      rw [known]
    · cases found

theorem Forest.named_of_parent (f : d.Forest) (link : d.parent n = some p) : d.Named p := by
  have mem := (f.linked p n).mpr link
  refine ⟨lt_size_of_children mem, ?_⟩
  obtain top | element | text := f.kinds p (lt_size_of_children mem)
  · exact .inl top
  · exact .inr element
  · obtain ⟨s, text⟩ := Option.isSome_iff_exists.mp text
    rw [f.leaf p s text] at mem
    cases mem

/-- What was below a node is not connected once the node has no parent any more. -/
theorem Forest.not_connected (f : d.Forest) (edits : Edits d d') (top : m ≠ root)
    (gone : d'.parent m = none) (small : n < d.size)
    (below : Relation.ReflTransGen d.ChildOf n m) : ¬ d'.Connected n := by
  intro h
  induction h using Relation.ReflTransGen.head_induction_on with
  | refl =>
      obtain rfl | ⟨c, link, -⟩ := below.cases_head
      · exact top rfl
      · cases f.parent_root.symm.trans link
  | head link rest ih =>
      obtain rfl | ⟨c, own, chain⟩ := below.cases_head
      · cases gone.symm.trans link
      · obtain rfl := Option.some.inj (own.symm.trans (edits.childOf small link))
        exact ih (Nat.lt_trans (f.lt_of_childOf own) small) chain

end BrowserScript.Dom
