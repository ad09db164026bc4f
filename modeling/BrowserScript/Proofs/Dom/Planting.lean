import BrowserScript.Proofs.Dom.Grafts
import BrowserScript.Proofs.Html.Printed

/-!
The arena that a printed document is read into: the document on top, then its nodes in preorder,
each with the number it has in that order. Main statement: `ofMarkup_print`.
-/

namespace BrowserScript

open Dom (NodeId Node)

/-- The element that a start tag makes, with its children. -/
def Dom.elementNode (parent : NodeId) (tag : List Char) (attributes : Html.Attributes)
    (children : List NodeId) : Node :=
  ⟨some parent, children, .element
    { tag := String.ofList tag
      attributes := attributes.map fun (name, value) =>
        (String.ofList name, String.ofList value) }⟩

namespace Html.Content

/-- How many nodes there are. -/
def size : Content → Nat
  | .empty => 0
  | .text _ after => 1 + after.size
  | .element _ _ inside after => 1 + inside.size + after.size

/-- The nodes that stand in a row, if all are numbered in preorder. -/
def row (first : NodeId) : Content → List NodeId
  | .empty => []
  | .text _ after => first :: after.row (first + 1)
  | .element _ _ inside after => first :: after.row (first + 1 + inside.size)

/-- All nodes in preorder, the nodes in the row below a parent. -/
def nodes (parent first : NodeId) : Content → List Node
  | .empty => []
  | .text cs after => ⟨some parent, [], .text (String.ofList cs)⟩ :: after.nodes parent (first + 1)
  | .element tag attributes inside after =>
    Dom.elementNode parent tag attributes (inside.row (first + 1)) ::
      (inside.nodes first (first + 1) ++ after.nodes parent (first + 1 + inside.size))

theorem length_nodes (content : Content) (parent first : NodeId) :
    (content.nodes parent first).length = content.size := by
  induction content generalizing parent first with
  | empty => rfl
  | text cs after ih =>
      rw [nodes, size, List.length_cons, ih, Nat.add_comm]
  | element tag attributes inside after ihInside ih =>
      rw [nodes, size, List.length_cons, List.length_append, ihInside, ih]
      omega

end Html.Content

namespace Dom

open Html (Content)

theorem modify_middle {α : Type} (before after : List α) (x : α) (f : α → α) :
    (before ++ x :: after).modify before.length f = before ++ f x :: after := by
  induction before with
  | nil => rfl
  | cons y before ih => exact congrArg (y :: ·) ih

section Planting

variable {d : Dom} {before after : List Node} {node : Node}

theorem size_of_shape (shape : d.nodes.toList = before ++ node :: after) :
    d.size = before.length + 1 + after.length := by
  rw [size, ← Array.length_toList, shape, List.length_append, List.length_cons]
  omega

/-- A new node stands at the end and is the last child of its parent. -/
theorem toList_create (shape : d.nodes.toList = before ++ node :: after) (kind : Kind) :
    (d.create before.length kind).nodes.toList =
      before ++ { node with children := node.children ++ [d.size] } ::
        (after ++ [⟨some before.length, [], kind⟩]) := by
  rw [create, modify, Array.toList_modify, Array.toList_push, shape, List.append_assoc,
    List.cons_append]
  exact modify_middle before _ node _

theorem eq_of_toList {nodes : List Node} (same : d.nodes.toList = nodes) : d = ⟨nodes.toArray⟩ := by
  rw [← same]

theorem getElem?_of_shape (shape : d.nodes.toList = before ++ node :: after) :
    d.nodes[before.length]? = some node := by
  rw [← Array.getElem?_toList, shape, List.getElem?_append_right (Nat.le_refl _), Nat.sub_self]
  rfl

theorem tag?_of_shape {up : Option NodeId} {below : List NodeId} {e : Element}
    (shape : d.nodes.toList = before ++ ⟨up, below, .element e⟩ :: after) :
    d.tag? before.length = some e.tag := by
  rw [tag?, element?, getElem?_of_shape shape]
  rfl

theorem children_of_shape (shape : d.nodes.toList = before ++ node :: after) :
    d.children before.length = node.children := by
  rw [children, getElem?_of_shape shape]
  rfl

/-- Content in the arena: its row ends the children of the parent, its nodes end the arena. -/
def planted (before : List Node) (node : Node) (after : List Node) (content : Content)
    (first : NodeId) : Dom :=
  ⟨(before ++ { node with children := node.children ++ content.row first } ::
    (after ++ content.nodes before.length first)).toArray⟩

/-- The parts of content are added in preorder, and the same elements are open after. -/
def Plants (base : NodeId) (content : Content) : Prop :=
  ∀ {d : Dom} {before after : List Node} {node : Node} {opened : List NodeId},
    d.nodes.toList = before ++ node :: after → opened.headD base = before.length →
    content.tokens.foldl (Graft.add base) ⟨d, opened⟩ =
      ⟨planted before node after content d.size, opened⟩

variable {base : NodeId}

theorem plants_empty : Plants base .empty := by
  intro d before after node opened shape top
  have same : planted before node after .empty d.size = d := by
    rw [eq_of_toList shape]
    simp only [planted, Content.row, Content.nodes, List.append_nil]
  rw [same]
  rfl

theorem plants_text {cs : List Char} {rest : Content} (ih : Plants base rest) :
    Plants base (.text cs rest) := by
  intro d before after node opened shape top
  have made := toList_create shape (.text (String.ofList cs))
  have step : Graft.add base ⟨d, opened⟩ (.text cs) =
      ⟨d.create before.length (.text (String.ofList cs)), opened⟩ := by
    rw [← top]
    rfl
  rw [Content.tokens, List.foldl_cons, step, ih made top, size_create]
  simp only [planted, Content.row, Content.nodes, List.append_assoc, List.singleton_append]

section Element

variable {tag : List Char} {attributes : Html.Attributes} {inside : Content} {opened : List NodeId}

theorem length_before (shape : d.nodes.toList = before ++ node :: after) (node' : Node) :
    (before ++ node' :: after).length = d.size := by
  rw [size_of_shape shape, List.length_append, List.length_cons]
  omega

/-- The element that was added is the last node: what it will enclose comes after it. -/
theorem last_shape (shape : d.nodes.toList = before ++ node :: after) (tag : List Char)
    (attributes : Html.Attributes) :
    (d.create before.length (elementNode before.length tag attributes []).kind).nodes.toList =
      (before ++ { node with children := node.children ++ [d.size] } :: after) ++
        elementNode before.length tag attributes [] :: [] := by
  rw [toList_create shape]
  simp only [elementNode, List.append_assoc, List.cons_append]

/-- A tag that encloses nothing. -/
theorem encloses_nothing (shape : d.nodes.toList = before ++ node :: after) :
    d.create before.length (elementNode before.length tag attributes []).kind =
      planted before node after (.element tag attributes .empty .empty) d.size :=
  eq_of_toList (toList_create shape _)

/-- A tag that encloses a text. -/
theorem encloses_text (shape : d.nodes.toList = before ++ node :: after) (cs : List Char) :
    (d.create before.length (elementNode before.length tag attributes []).kind).createText d.size
        (String.ofList cs) =
      planted before node after (.element tag attributes (.text cs .empty) .empty) d.size := by
  have made := toList_create (last_shape shape tag attributes) (.text (String.ofList cs))
  rw [length_before shape, size_create] at made
  refine (eq_of_toList made).trans ?_
  simp only [planted, elementNode, Content.row, Content.nodes, List.append_assoc,
    List.cons_append, List.nil_append]

/-- A tag that is closed after what it encloses. -/
theorem encloses_parts (shape : d.nodes.toList = before ++ node :: after)
    (top : opened.headD base = before.length) (inner : Plants base inside) :
    (Html.Token.start tag attributes .opened :: inside.tokens ++ [Html.Token.stop tag]).foldl
        (Graft.add base) ⟨d, opened⟩ =
      ⟨planted before node after (.element tag attributes inside .empty) d.size, opened⟩ := by
  let front := before ++ { node with children := node.children ++ [d.size] } :: after
  have last := last_shape shape tag attributes
  have length : front.length = d.size := length_before shape _
  have innermost : (d.size :: opened).headD base = front.length := length.symm
  have filled := inner last innermost
  rw [size_create] at filled
  let full := planted front (elementNode before.length tag attributes []) [] inside (d.size + 1)
  have whole : full = planted before node after (.element tag attributes inside .empty) d.size := by
    simp only [full, front, planted, elementNode, Content.row, Content.nodes, length,
      List.append_assoc, List.cons_append, List.nil_append, List.append_nil]
  have shape' : full.nodes.toList =
      front ++ elementNode before.length tag attributes (inside.row (d.size + 1)) ::
        inside.nodes front.length (d.size + 1) := rfl
  have tag? : full.tag? d.size = some (String.ofList tag) := length ▸ tag?_of_shape shape'
  have closing : Graft.close full (String.ofList tag) (d.size :: opened) = opened := by
    simp only [Graft.close, List.dropWhile_cons, tag?, bne_self_eq_false, Bool.false_eq_true,
      if_false]
  have first : Graft.add base ⟨d, opened⟩ (.start tag attributes .opened) =
      ⟨d.create before.length (elementNode before.length tag attributes []).kind,
        d.size :: opened⟩ := by
    rw [← top]
    rfl
  rw [List.cons_append, List.foldl_cons, first, List.foldl_append, filled, ← whole]
  exact congrArg (Graft.mk full) closing

theorem plants_element (fits : inside.TagFits tag attributes) {rest : Content}
    (text : ∀ cs, inside = .text cs .empty → cs ≠ []) (inner : Plants base inside)
    (ih : Plants base rest) : Plants base (.element tag attributes inside rest) := by
  intro d before after node opened shape top
  let full := planted before node after (.element tag attributes inside .empty) d.size
  have step : (if Html.isVoidTag tag then [.start tag attributes .none]
      else if Html.isTextTag tag then [.start tag attributes (.text inside.onlyText)]
      else .start tag attributes .opened :: inside.tokens ++ [.stop tag]).foldl (Graft.add base)
        ⟨d, opened⟩ = ⟨full, opened⟩ := by
    split_ifs with void single
    · simp only [full, fits.void void, ← encloses_nothing shape]
      rw [← top]
      rfl
    · obtain rfl | ⟨cs, rfl⟩ := fits.single single
      · simp only [full, ← encloses_nothing shape]
        rw [← top]
        rfl
      · obtain ⟨c, cs, rfl⟩ := List.exists_cons_of_ne_nil (text cs rfl)
        simp only [full, ← encloses_text shape]
        rw [← top]
        rfl
    · exact encloses_parts shape top inner
  have size : full.size = d.size + 1 + inside.size := by
    rw [size_of_shape (d := full) rfl, List.length_append, Content.length_nodes,
      size_of_shape shape, Content.size, Content.size]
    omega
  rw [Content.tokens, List.foldl_append, step, ih (d := full) rfl top, size]
  simp only [planted, Content.row, Content.nodes, List.append_assoc, List.cons_append,
    List.nil_append, List.append_nil]

end Element

theorem plants {content : Content} (good : content.WellFormed) (base : NodeId) :
    Plants base content := by
  induction content with
  | empty => exact plants_empty
  | text cs rest ih => exact plants_text (ih good.2.2)
  | element tag attributes inside rest ihInside ih =>
      obtain ⟨fits, inner, good⟩ := good
      refine plants_element fits ?_ (ihInside inner) (ih good)
      rintro cs rfl
      exact inner.1

/-- Content that stands in the arena lists its numbers in order when it is walked in preorder. -/
theorem flatMap_row (f : d.Forest) (content : Content) {parent first : NodeId}
    {before after : List Node} (length : before.length = first)
    (shape : d.nodes.toList = before ++ (content.nodes parent first ++ after)) :
    ((content.row first).flatMap fun n => n :: d.descendants n) =
      List.range' first content.size := by
  induction content generalizing parent first before after with
  | empty => rfl
  | text cs rest ih =>
      subst length
      rw [Content.nodes, List.cons_append] at shape
      have none : d.descendants before.length = [] := by
        rw [f.descendants_eq, children_of_shape shape]
        rfl
      rw [List.append_cons] at shape
      have later := ih (by simp) shape
      rw [Content.row, List.flatMap_cons, none, later, Content.size, Nat.add_comm 1,
        List.range'_succ]
      rfl
  | element tag attributes inside rest ihInside ih =>
      subst length
      rw [Content.nodes, List.cons_append] at shape
      have below : d.descendants before.length = (inside.row (before.length + 1)).flatMap
          fun n => n :: d.descendants n := by
        rw [f.descendants_eq, children_of_shape shape]
        rfl
      rw [List.append_cons, List.append_assoc (inside.nodes ..)] at shape
      have longer (x : Node) : (before ++ [x]).length = before.length + 1 := List.length_append
      have inner := ihInside (longer _) shape
      rw [← List.append_assoc] at shape
      have later := ih (by rw [List.length_append, longer, Content.length_nodes]) shape
      rw [Content.row, List.flatMap_cons, below, inner, later, Content.size, List.cons_append,
        List.range'_append_1, Nat.add_assoc, Nat.add_comm 1, List.range'_succ]

/-- A document whose parts are those of some content stands in the arena as that content. -/
theorem ofMarkup_planted {markup : String} {content : Content}
    (parts : Html.tokens markup.toList = content.tokens) (plants : Plants root content) :
    (ofMarkup markup).nodes.toList =
      ⟨none, content.row 1, .document⟩ :: content.nodes root 1 ∧
    (ofMarkup markup).descendants root = List.range' 1 content.size := by
  have start : empty.nodes.toList = [] ++ ⟨none, [], .document⟩ :: [] := rfl
  have added : content.tokens.foldl (Graft.add root) ⟨empty, []⟩ =
      ⟨planted [] ⟨none, [], .document⟩ [] content 1, []⟩ := plants start rfl
  have top : (ofMarkup markup).nodes.toList =
      [] ++ ⟨none, content.row 1, .document⟩ :: content.nodes root 1 := by
    rw [ofMarkup, addMarkup, parts, added]
    rfl
  have shape : (ofMarkup markup).nodes.toList =
      [⟨none, content.row 1, .document⟩] ++ (content.nodes root 1 ++ []) := by
    rw [top, List.append_nil]
    rfl
  refine ⟨top, ?_⟩
  have f := forest_ofMarkup markup
  rw [f.descendants_eq, show root = ([] : List Node).length from rfl, children_of_shape top]
  exact flatMap_row f content rfl shape

/-- A printed document is read as the forest it was printed from: its nodes stand below the document
with their tags, attributes and texts, numbered from 1 in preorder. -/
theorem ofMarkup_print (content : Content) (good : content.WellFormed) :
    (ofMarkup (String.ofList (content.print false))).nodes.toList =
      ⟨none, content.row 1, .document⟩ :: content.nodes root 1 ∧
    (ofMarkup (String.ofList (content.print false))).descendants root =
      List.range' 1 content.size := by
  have parts : Html.tokens (String.ofList (content.print false)).toList = content.tokens := by
    rw [String.toList_ofList, Content.tokens_print good]
  exact ofMarkup_planted parts (plants good root)

end Planting

namespace Printed

/-! A paragraph with a break and a script that holds the end tag of another element. -/

def script : Content :=
  .element "script".toList [] (.text "if (a < b) {} // &amp; </b>".toList .empty) .empty

def paragraph : Content :=
  .text "1 < 2".toList (.element "p".toList [("title".toList, "\"5\" > &lt;".toList)]
    (.text "so".toList (.element "br".toList [] .empty (.text "&amp;".toList .empty))) script)

def markup : String :=
  "1 &lt; 2<p title=\"&quot;5&quot; &gt; &amp;lt;\">so<br>&amp;amp;</p>" ++
    "<script>if (a < b) {} // &amp; </b></script>"

theorem wellFormed_script : script.WellFormed := by
  refine ⟨⟨by decide, List.all_eq_true.mp (by decide), by decide, ?_, ?_, ?_, by decide +kernel⟩,
    ?_, trivial⟩
  · exact List.forall_mem_nil _
  · exact fun void => absurd void (by decide +kernel)
  · exact fun _ => .inr ⟨_, rfl⟩
  · exact ⟨by decide, rfl, trivial⟩

theorem wellFormed_paragraph : paragraph.WellFormed := by
  refine ⟨by decide, rfl, ⟨by decide, List.all_eq_true.mp (by decide), by decide, ?_, ?_, ?_, ?_⟩,
    ?_, wellFormed_script⟩
  · exact List.forall_mem_singleton.mpr ⟨by decide, List.all_eq_true.mp (by decide)⟩
  · exact fun void => absurd void (by decide +kernel)
  · exact fun single => absurd single (by decide +kernel)
  · exact fun raw => absurd raw (by decide +kernel)
  · refine ⟨by decide, rfl, ⟨by decide, List.all_eq_true.mp (by decide), by decide, ?_, ?_, ?_, ?_⟩,
      trivial, by decide, rfl, trivial⟩
    · exact List.forall_mem_nil _
    · exact fun _ => rfl
    · exact fun _ => .inl rfl
    · exact fun raw => absurd raw (by decide +kernel)

theorem ofMarkup_paragraph :
    paragraph.WellFormed ∧ String.ofList (paragraph.print false) = markup ∧
    (ofMarkup markup).descendants root = [1, 2, 3, 4, 5, 6, 7] ∧
    (ofMarkup markup).children 2 = [3, 4, 5] ∧
    (ofMarkup markup).attribute? 2 "title" = some "\"5\" > &lt;" ∧
    (ofMarkup markup).text? 5 = some "&amp;" ∧
    (ofMarkup markup).text? 7 = some "if (a < b) {} // &amp; </b>" := by
  have written : String.ofList (paragraph.print false) = markup := by decide +kernel
  obtain ⟨-, walked⟩ := ofMarkup_print paragraph wellFormed_paragraph
  rw [written] at walked
  exact ⟨wellFormed_paragraph, written, walked, by decide +kernel, by decide +kernel,
    by decide +kernel, by decide +kernel⟩

end Printed

end Dom

end BrowserScript
