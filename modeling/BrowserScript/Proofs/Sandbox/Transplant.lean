import BrowserScript.Proofs.Sandbox.History

/-!
Markup added below an element of a document is what the same markup makes of an empty document,
moved below that element: the same nodes in the same order of creation, with their numbers shifted
behind those that were there. Both are read from the same parts, so the two arenas are compared
part by part. Main statement: `appendMarkup_transplants`.
-/

namespace BrowserScript

namespace Dom

/-- Where a node of another document comes to stand; its root is the node it is put below. -/
def place (d : Dom) (n k : Nat) : Nat := if k = root then n else d.size + k - 1

/-- A node with other numbers in its links. -/
def Node.moved (g : NodeId → NodeId) (node : Node) : Node :=
  ⟨node.parent.map g, node.children.map g, node.kind⟩

/-- `d'` is `d` with all that `f` has below its root put below a node, behind its children. -/
structure Transplanted (d : Dom) (n : NodeId) (f d' : Dom) : Prop where
  size : d'.size + 1 = d.size + f.size
  kept : ∀ k < d.size, k ≠ n → d'.nodes[k]? = d.nodes[k]?
  below : d'.nodes[n]? = d.nodes[n]?.map fun node =>
    { node with children := node.children ++ (f.children root).map (d.place n) }
  added : ∀ k, k ≠ root → d'.nodes[d.place n k]? = f.nodes[k]?.map (Node.moved (d.place n))

variable {d d' f : Dom} {n k p : Nat}

theorem place_root (d : Dom) (n : NodeId) : d.place n root = n := if_pos rfl

theorem place_of_ne (d : Dom) (n : Nat) (inside : k ≠ root) : d.place n k = d.size + k - 1 :=
  if_neg inside

theorem size_le_place (d : Dom) (n : Nat) (inside : k ≠ root) : d.size ≤ d.place n k := by
  have pos : 0 < k := Nat.pos_of_ne_zero inside
  rw [place_of_ne d n inside]
  omega

/-- No two nodes are put in one place. -/
theorem place_inj (there : n < d.size) : d.place n p = d.place n k ↔ p = k := by
  refine ⟨fun same => ?_, congrArg _⟩
  by_cases top : p = root <;> by_cases top' : k = root
  · rw [top, top']
  · have far := size_le_place d n top'
    rw [← same, top, place_root] at far
    omega
  · have far := size_le_place d n top
    rw [same, top', place_root] at far
    omega
  · have pos : 0 < p := Nat.pos_of_ne_zero top
    have pos' : 0 < k := Nat.pos_of_ne_zero top'
    rw [place_of_ne d n top, place_of_ne d n top'] at same
    omega

theorem transplanted_empty (d : Dom) (n : NodeId) : Transplanted d n empty d where
  size := rfl
  kept _ _ _ := rfl
  below := by
    cases d.nodes[n]? with
    | none => rfl
    | some node => exact congrArg some (by rw [show empty.children root = [] from rfl]; simp)
  added k inside := by
    have far := size_le_place d n inside
    have alone : empty.nodes.size ≤ k := Nat.pos_of_ne_zero inside
    rw [Array.getElem?_eq_none far, Array.getElem?_eq_none alone]
    rfl

namespace Transplanted

variable (same : Transplanted d n f d')
include same

theorem place_size (some : root < f.size) : d.place n f.size = d'.size := by
  have size := same.size
  rw [place_of_ne d n (Nat.ne_of_gt some)]
  omega

theorem size_le (some : root < f.size) : d.size ≤ d'.size := by
  have size := same.size
  have pos : 0 < f.size := some
  omega

theorem place_lt (there : n < d.size) (inside : k < f.size) : d.place n k < d'.size := by
  have size := same.size
  rw [place]
  split <;> omega

/-- A node is made in both at the same place. -/
theorem create (there : n < d.size) (inside : p < f.size) (kind : Kind) :
    Transplanted d n (f.create p kind) (d'.create (d.place n p) kind) := by
  have some : root < f.size := Nat.lt_of_le_of_lt (Nat.zero_le p) inside
  have room := same.place_lt there inside
  have larger := same.size_le some
  have new := same.place_size some
  constructor
  case size =>
    rw [size_create, size_create]
    have size := same.size
    omega
  case kept =>
    intro k old other
    have notNew : k ≠ d'.size := Nat.ne_of_lt (Nat.lt_of_lt_of_le old larger)
    have apart : d.place n p ≠ k := by
      by_cases top : p = root
      · rw [top, place_root]
        exact other.symm
      · have far := size_le_place d n top
        omega
    rw [node_create room, if_neg notNew, if_neg apart, same.kept k old other]
  case below =>
    have notNew : n ≠ d'.size := Nat.ne_of_lt (Nat.lt_of_lt_of_le there larger)
    rw [node_create room, if_neg notNew, children_create inside, if_neg (Nat.ne_of_lt some),
      same.below]
    by_cases top : p = root
    · rw [top, place_root, if_pos rfl, if_pos rfl, List.map_append, List.map_singleton, new,
        Option.map_map]
      congr 1
      funext node
      simp
    · have apart : d.place n p ≠ n := fun back =>
        top ((place_inj there).mp (back.trans (place_root d n).symm))
      rw [if_neg apart, if_neg top]
  case added =>
    intro k below
    rw [node_create room, node_create inside]
    simp only [← new, place_inj there]
    split
    · rfl
    · rw [same.added k below]
      split
      · rw [Option.map_map, Option.map_map]
        congr 1
        funext node
        simp [Node.moved]
      · rfl

theorem kind (inside : k ≠ root) :
    d'.nodes[d.place n k]?.map (·.kind) = f.nodes[k]?.map (·.kind) := by
  rw [same.added k inside, Option.map_map]
  rfl

theorem children (there : n < d.size) :
    d'.children n = d.children n ++ (f.children root).map (d.place n) := by
  have known : d.nodes[n]? = some d.nodes[n] := Array.getElem?_eq_getElem there
  rw [Dom.children, Dom.children, same.below, known]
  rfl

theorem tag? (inside : k ≠ root) : d'.tag? (d.place n k) = f.tag? k := by
  rw [Dom.tag?, Dom.tag?, element?_of_kind (same.kind inside)]

theorem isElement (inside : k ≠ root) : d'.isElement (d.place n k) = f.isElement k := by
  rw [Dom.isElement, Dom.isElement, element?_of_kind (same.kind inside)]

end Transplanted

theorem Forest.ne_root_of_child (fresh : f.Forest) (mem : k ∈ f.children p) : k ≠ root := by
  have link := (fresh.linked p k).mp mem
  exact Nat.ne_of_gt (Nat.lt_of_le_of_lt (Nat.zero_le p) (fresh.later k p link))

/-! ## Part by part -/

theorem dropWhile_map_congr {α β : Type} {g : α → β} {p : β → Bool} {q : α → Bool} {xs : List α}
    (same : ∀ x ∈ xs, p (g x) = q x) : (xs.map g).dropWhile p = (xs.dropWhile q).map g := by
  induction xs with
  | nil => rfl
  | cons x xs ih =>
      obtain ⟨first, same⟩ := List.forall_mem_cons.mp same
      rw [List.map_cons, List.dropWhile_cons, List.dropWhile_cons, first, ih same]
      split <;> rfl

theorem Graft.close_map {g : Nat → Nat} {tag : String} {opened : List Nat}
    (same : ∀ k ∈ opened, d'.tag? (g k) = f.tag? k) :
    close d' tag (opened.map g) = (close f tag opened).map g := by
  have dropped : (opened.map g).dropWhile (fun k => d'.tag? k != some tag) =
      (opened.dropWhile fun k => f.tag? k != some tag).map g :=
    dropWhile_map_congr fun k mem => by rw [same k mem]
  rw [close, close, dropped]
  cases opened.dropWhile fun k => f.tag? k != some tag <;> rfl

/-- Two grafts of the same parts so far, one into an empty document and one below a node. -/
structure Graft.Follows (d : Dom) (n : NodeId) (g h : Graft) : Prop where
  dom : Transplanted d n h.dom g.dom
  opened : g.opened = h.opened.map (d.place n)
  inside : root < h.dom.size ∧ ∀ k ∈ h.opened, k ≠ root ∧ k < h.dom.size

namespace Graft.Follows

variable {g h : Graft} (follows : Follows d n g h)
include follows

theorem parent : g.parent n = d.place n (h.parent root) ∧ h.parent root < h.dom.size := by
  obtain ⟨some, inside⟩ := follows.inside
  rw [Graft.parent, Graft.parent, follows.opened]
  cases all : h.opened with
  | nil => exact ⟨(place_root d n).symm, some⟩
  | cons k outer =>
      rw [all] at inside
      exact ⟨rfl, (inside k List.mem_cons_self).2⟩

/-- A node is made below the innermost open element of both. -/
theorem create (there : n < d.size) (inside : p < h.dom.size) (kind : Kind) :
    Follows d n ⟨g.dom.create (d.place n p) kind, g.opened⟩ ⟨h.dom.create p kind, h.opened⟩ where
  dom := follows.dom.create there inside kind
  opened := follows.opened
  inside := by
    obtain ⟨some, inside⟩ := follows.inside
    rw [size_create]
    exact ⟨Nat.lt_succ_of_lt some, fun k mem =>
      ⟨(inside k mem).1, Nat.lt_succ_of_lt (inside k mem).2⟩⟩

/-- An end tag closes the same elements in both: the node that the markup is added below is not
among the open ones, whatever its name is. -/
theorem stop (tag : String) : Follows d n ⟨g.dom, close g.dom tag g.opened⟩
    ⟨h.dom, close h.dom tag h.opened⟩ where
  dom := follows.dom
  opened := by
    rw [follows.opened]
    exact close_map fun k mem => follows.dom.tag? (follows.inside.2 k mem).1
  inside := ⟨follows.inside.1, fun k mem => follows.inside.2 k (Growing.mem_close mem)⟩

/-- An element that is open in both. -/
theorem push (inside : k ≠ root ∧ k < h.dom.size) :
    Follows d n ⟨g.dom, d.place n k :: g.opened⟩ ⟨h.dom, k :: h.opened⟩ where
  dom := follows.dom
  opened := by rw [follows.opened, List.map_cons]
  inside := ⟨follows.inside.1, List.forall_mem_cons.mpr ⟨inside, follows.inside.2⟩⟩

/-- A part does the same to both. -/
theorem add (there : n < d.size) (t : Html.Token) :
    Follows d n (g.add n t) (h.add root t) := by
  obtain ⟨parent, inside⟩ := follows.parent
  cases t with
  | text cs =>
      have made := follows.create there inside (.text (String.ofList cs))
      rw [← parent] at made
      exact made
  | stop tag => exact follows.stop (String.ofList tag)
  | start tag attributes body =>
      let e : Element :=
        { tag := String.ofList tag
          attributes := attributes.map fun a => (String.ofList a.1, String.ofList a.2) }
      have made := follows.create there inside (.element e)
      have new : h.dom.size ≠ root ∧
          h.dom.size < (h.dom.create (h.parent root) (.element e)).size :=
        ⟨Nat.ne_of_gt follows.inside.1, by rw [size_create]; exact Nat.lt_succ_self _⟩
      have place := follows.dom.place_size follows.inside.1
      cases body with
      | opened =>
          have pushed := made.push new
          rw [← parent, place] at pushed
          exact pushed
      | none =>
          rw [← parent] at made
          exact made
      | text cs =>
          cases cs with
          | nil =>
              rw [← parent] at made
              exact made
          | cons c cs =>
              have filled := made.create there new.2 (.text (String.ofList (c :: cs)))
              rw [← parent, place] at filled
              exact filled

end Graft.Follows

/-- Markup below a node is what it makes of an empty document, put below that node. -/
theorem transplanted_addMarkup (there : n < d.size) (markup : String) :
    Transplanted d n (ofMarkup markup) (d.addMarkup n markup) := by
  have each (ts : List Html.Token) {g h : Graft} (follows : Graft.Follows d n g h) :
      Graft.Follows d n (ts.foldl (Graft.add n) g) (ts.foldl (Graft.add root) h) := by
    induction ts generalizing g h with
    | nil => exact follows
    | cons t ts ih => exact ih (follows.add there t)
  have start : Graft.Follows d n ⟨d, []⟩ ⟨empty, []⟩ :=
    ⟨transplanted_empty d n, rfl, Nat.one_pos, fun k mem => by cases mem⟩
  exact (each (Html.tokens markup.toList) start).dom

/-- In document order the new nodes stand behind those that were below the node before. -/
theorem Transplanted.descendants (same : Transplanted d n f d') (forest : d.Forest)
    (forest' : d'.Forest) (fresh : f.Forest) (there : n < d.size) :
    d'.descendants n = d.descendants n ++ (f.descendants root).map (d.place n) := by
  have old (k : Nat) (later : n < k) : k < d.size → d'.descendants k = d.descendants k := by
    induction k using forest.induction_children with
    | step k ih =>
        intro small
        have kept : d'.children k = d.children k := by
          rw [Dom.children, Dom.children, same.kept k small (Nat.ne_of_gt later)]
        rw [forest'.descendants_eq, forest.descendants_eq, kept]
        refine List.flatMap_congr fun c mem => ?_
        have link := (forest.linked k c).mp mem
        have down := Nat.lt_trans later (forest.later c k link)
        rw [ih c mem down (lt_size_of_parent link)]
  have new (k : Nat) : k ≠ root → d'.descendants (d.place n k) =
      (f.descendants k).map (d.place n) := by
    induction k using fresh.induction_children with
    | step k ih =>
        intro inside
        have moved : d'.children (d.place n k) = (f.children k).map (d.place n) := by
          rw [Dom.children, Dom.children, same.added k inside]
          cases f.nodes[k]? <;> rfl
        rw [forest'.descendants_eq, fresh.descendants_eq, moved, List.flatMap_map, List.map_flatMap]
        refine List.flatMap_congr fun c mem => ?_
        rw [ih c mem (fresh.ne_root_of_child mem), List.map_cons]
  rw [forest'.descendants_eq, same.children there, List.flatMap_append, List.flatMap_map]
  congr 1
  · rw [forest.descendants_eq]
    refine List.flatMap_congr fun c mem => ?_
    have link := (forest.linked n c).mp mem
    rw [old c (forest.later c n link) (lt_size_of_parent link)]
  · rw [fresh.descendants_eq, List.map_flatMap]
    refine List.flatMap_congr fun c mem => ?_
    rw [new c (fresh.ne_root_of_child mem), List.map_cons]

end Dom

namespace Sandbox

variable {L : Type} {s : Sandbox L} {el : Page.Handle} {n : Nat}

/-- Adding markup below an element transplants what a fresh document gets from it. The handles are
those of its topmost elements, and one change is recorded, of the children of the element. -/
theorem appendMarkup_transplants (resolved : s.document.resolve el = .ok n) (markup : String) :
    ∃ d, Dom.Transplanted s.dom n (.ofMarkup markup) d ∧ s.appendMarkup el markup = .ok
      (s.handles ((((Dom.ofMarkup markup).children Dom.root).filter
        (Dom.ofMarkup markup).isElement).map (s.dom.place n)),
        (s.modifyDom fun _ => d).emit ⟨.childList, el, none⟩) := by
  have there : n < s.dom.size := (named_of_resolve resolved).1
  have same := Dom.transplanted_addMarkup there markup
  have tops : ((s.dom.addMarkup n markup).children n).drop (s.dom.children n).length =
      ((Dom.ofMarkup markup).children Dom.root).map (s.dom.place n) := by
    rw [same.children there]
    exact List.drop_left
  have elements : (((Dom.ofMarkup markup).children Dom.root).map (s.dom.place n)).filter
        (s.dom.addMarkup n markup).isElement =
      (((Dom.ofMarkup markup).children Dom.root).filter
        (Dom.ofMarkup markup).isElement).map (s.dom.place n) := by
    rw [List.filter_map]
    refine congrArg _ (List.filter_congr fun k mem => same.isElement ?_)
    exact (Dom.forest_ofMarkup markup).ne_root_of_child mem
  refine ⟨_, same, ?_⟩
  rw [appendMarkup, resolved, ← elements, ← tops]
  rfl

namespace Transplanting

/-! A fragment that closes a paragraph it does not open, and a container that is not its own. -/

def page : Sandbox Unit := .ofMarkup "https://shop.example/" "<div><p>a</p></div>"

def fragment : String := "<b>1</p><i>2</b>3</div>4"

theorem appendMarkup_transplants_fragment :
    page.document.resolve (page.handle 1) = .ok 1 ∧ ∃ d,
      Dom.Transplanted page.dom 1 (.ofMarkup fragment) d ∧
      page.appendMarkup (page.handle 1) fragment =
        .ok ([page.handle 4], (page.modifyDom fun _ => d).emit
          ⟨.childList, page.handle 1, none⟩) := by
  have resolved : page.document.resolve (page.handle 1) = .ok 1 := by decide +kernel
  have tops : (((Dom.ofMarkup fragment).children Dom.root).filter
      (Dom.ofMarkup fragment).isElement).map (page.dom.place 1) = [4] := by decide +kernel
  obtain ⟨d, same, done⟩ := appendMarkup_transplants resolved fragment
  rw [tops] at done
  exact ⟨resolved, d, same, done⟩

end Transplanting

end Sandbox

end BrowserScript
