import BrowserScript.Proofs.Selector.Translation
import BrowserScript.Proofs.XPath.Selection

/-!
A selector and its expression select the same. A predicate is true of the elements its test holds
of; the steps of a chain lead to the nodes the chain holds of, the first slashes to all of the
document; a union of groups is put in order as the elements were listed before the selector was
asked.
-/

namespace BrowserScript

open Dom (NodeId)
open XPath (Expr Step Scope Context Value Decides Item attributeOf attributeItems evalAll
  applySteps)

variable {d : Dom} {s : Scope}

namespace XPath

theorem evalAll_map {α : Type} {expr : α → Expr} {value : α → Value} {xs : List α} {ctx : Context}
    (each : ∀ x ∈ xs, (expr x).eval s ctx = some (value x)) :
    evalAll s (xs.map expr) ctx = some (xs.map value) := by
  induction xs with
  | nil => rfl
  | cons x xs ih =>
      obtain ⟨first, each⟩ := List.forall_mem_cons.mp each
      rw [List.map_cons, evalAll, first, ih each]
      rfl

end XPath

/-- The value of a literal is its text. -/
theorem Locator.eval_literalExpr (s : Scope) (text : String) (ctx : Context) :
    (literalExpr text).eval s ctx = some (.string text) := by
  rw [literalExpr]
  split
  · have parts : evalAll s ((pieces text.toList).map fun p => .literal (String.ofList p)) ctx =
        some ((pieces text.toList).map fun p => .string (String.ofList p)) :=
      XPath.evalAll_map fun p _ => by rw [Expr.eval]
    have whole : String.join (((pieces text.toList).map fun p => .string (String.ofList p)).map
        (Value.toText s)) = text := by
      rw [List.map_map, ← String.toList_inj, String.toList_join, List.flatMap_map]
      simp [Value.toText, flatten_pieces]
    rw [Expr.eval, parts]
    exact congrArg (some ∘ Value.string) whole
  · rw [Expr.eval]

namespace Selector

/-- Whether a test holds of an element. -/
def Test.holds (t : Test) (d : Dom) (n : NodeId) : Bool :=
  match t with
  | .has name => d.hasAttribute n name
  | .equals name value => d.attribute? n name == some value
  | .classed name => (d.classes n).contains name

theorem toBool_attributeItems (distinct : d.Distinct) (n : NodeId) (name : String) :
    (Value.nodes (attributeItems d n name)).toBool = d.hasAttribute n name := by
  have values := XPath.map_attributeItems distinct n name
  rw [Value.toBool, Dom.hasAttribute]
  cases found : d.attribute? n name with
  | none =>
      rw [found] at values
      rw [List.map_eq_nil_iff.mp values]
      rfl
  | some v =>
      rw [found] at values
      cases items : attributeItems d n name with
      | nil =>
          rw [items] at values
          cases values
      | cons i items => rfl

theorem compare_attributeItems (distinct : d.Distinct) (n : NodeId) (name value : String) :
    (Value.nodes (attributeItems d n name)).compare (Scope.of d) .eq (.string value) =
      (d.attribute? n name == some value) := by
  have values := XPath.map_attributeItems distinct n name
  have any : (Value.nodes (attributeItems d n name)).compare (Scope.of d) .eq (.string value) =
      ((attributeItems d n name).map (Scope.of d).stringValue).any (· == value) := by
    rw [List.any_map]
    rfl
  rw [any, values]
  cases d.attribute? n name with
  | none => rfl
  | some v => simp

/-- The text of an attribute; one that is not there is empty. -/
theorem toText_attributeItems (distinct : d.Distinct) (n : NodeId) (name : String) :
    (Value.nodes (attributeItems d n name)).toText (Scope.of d) =
      (d.attribute? n name).getD "" := by
  have values := XPath.map_attributeItems distinct n name
  have ordered := XPath.inOrder_of_length (s := Scope.of d)
    (XPath.length_attributeItems distinct n name)
  have first : ((attributeItems d n name).map (Scope.of d).stringValue).head? =
      d.attribute? n name := by
    rw [values]
    cases d.attribute? n name <;> rfl
  rw [Value.toText, ordered, ← first, List.head?_map]

/-- A test whose predicate speaks of it: names are in lower case, classes are words. -/
def Test.Plain : Test → Prop
  | .has name | .equals name _ => Text.asciiLowered name = name
  | .classed name => name.toList ≠ [] ∧ ∀ c ∈ name.toList, ¬ Text.isBlank c

/-- The class names of an element between single spaces. -/
theorem occursIn_classes (n : NodeId) {name : String} (plain : (Test.classed name).Plain) :
    Text.occursIn (" " ++ name ++ " ")
        (" " ++ Text.collapse ((d.attribute? n "class").getD "") ++ " ") =
      (d.classes n).contains name := by
  have found := Text.infix_collapse plain.1 plain.2 ((d.attribute? n "class").getD "")
  have split (x : String) : (" " ++ x ++ " ").toList = ' ' :: (x.toList ++ [' ']) := by simp
  rw [Bool.eq_iff_iff, Text.occursIn, Text.hasInfix_iff, split, split, found,
    List.contains_iff_mem, Dom.classes]
  cases d.attribute? n "class" with
  | none => exact iff_of_false List.not_mem_nil List.not_mem_nil
  | some c =>
      rw [Option.getD_some, List.mem_map]
      constructor
      · exact fun mem => ⟨name.toList, mem, String.ofList_toList⟩
      · rintro ⟨w, mem, rfl⟩
        rwa [String.toList_ofList]

/-- The classes of an element as the test of a class reads them. -/
theorem eval_spacedClasses (distinct : d.Distinct) (n : NodeId) (position size : Nat) :
    (Expr.call .concat [.literal " ", .call .normalizeSpace [attributeOf "class"],
      .literal " "]).eval (Scope.of d) ⟨.node n, position, size⟩ =
    some (.string (" " ++ Text.collapse ((d.attribute? n "class").getD "") ++ " ")) := by
  have lowered : Text.asciiLowered "class" = "class" := by decide
  have own := XPath.eval_attributeOf distinct lowered n position size
  have normalized : (Expr.call .normalizeSpace [attributeOf "class"]).eval (Scope.of d)
      ⟨.node n, position, size⟩ =
      some (.string (Text.collapse ((d.attribute? n "class").getD ""))) := by
    rw [Expr.eval, evalAll, own, ← toText_attributeItems distinct]
    rfl
  have space : (Expr.literal " ").eval (Scope.of d) ⟨.node n, position, size⟩ =
      some (.string " ") := by
    rw [Expr.eval]
  rw [Expr.eval, evalAll, space, evalAll, normalized, evalAll, space, evalAll]
  rfl

/-- The predicate of a test is true of the elements the test holds of. -/
theorem decides_test (distinct : d.Distinct) {t : Test} (plain : t.Plain) :
    Decides (Scope.of d) t.expr (t.holds d) := by
  cases t with
  | has name =>
      intro n position size
      refine ⟨_, XPath.eval_attributeOf distinct plain n position size, ?_,
        toBool_attributeItems distinct n name⟩
      intro f same
      cases same
  | equals name value =>
      refine .of_bool fun n position size => ?_
      rw [Test.expr, Expr.eval, XPath.eval_attributeOf distinct plain, Locator.eval_literalExpr]
      exact congrArg (some ∘ Value.bool) (compare_attributeItems distinct n name value)
  | classed name =>
      refine .of_bool fun n position size => ?_
      rw [Test.expr, Expr.eval, evalAll, eval_spacedClasses distinct, evalAll,
        Locator.eval_literalExpr, evalAll]
      exact congrArg (some ∘ Value.bool) (occursIn_classes n plain)

/-! ## Compounds -/

structure Compound.Plain (c : Compound) : Prop where
  tag : ∀ name ∈ c.tag, Text.asciiLowered name = name
  tests : ∀ t ∈ c.tests, t.Plain

theorem holds_test (t : AttributeTest) (d : Dom) (n : NodeId) : t.test.holds d n = t.holds d n := by
  rw [AttributeTest.test, AttributeTest.holds]
  cases t.value with
  | none =>
      rw [Option.map_none, Option.getD_none, Test.holds, Dom.hasAttribute]
      cases d.attribute? n t.name <;> rfl
  | some v =>
      rw [Option.map_some, Option.getD_some, Test.holds]
      cases d.attribute? n t.name with
      | none => rfl
      | some w => simp

theorem all_tests (c : Compound) (d : Dom) (n : NodeId) :
    (c.tests.all fun t => t.holds d n) = (c.id.all (d.attribute? n "id" == some ·) &&
      c.classes.all (d.classes n).contains && c.attributes.all (·.holds d n)) := by
  have id : (c.id.toList.map (Test.equals "id")).all (fun t => t.holds d n) =
      c.id.all (d.attribute? n "id" == some ·) := by
    cases c.id <;> simp [Test.holds]
  rw [Compound.tests, List.all_append, List.all_append, id, List.all_map, List.all_map]
  have attributes : (fun t => Test.holds t d n) ∘ AttributeTest.test = (·.holds d n) :=
    funext fun t => holds_test t d n
  rw [attributes]
  rfl

/-- A compound holds of an element by its tag and its tests. -/
theorem holds_compound {c : Compound} (plain : c.Plain) (d : Dom) (n : NodeId) :
    (c.nodeTest.holds d (.node n) && c.tests.all fun t => t.holds d n) = c.holds d n := by
  have tested : c.nodeTest.holds d (.node n) =
      (d.element? n).any fun e => c.tag.all (· == e.tag) := by
    rw [Compound.nodeTest]
    cases tag : c.tag with
    | none =>
        change d.isElement n = _
        rw [Dom.isElement]
        cases d.element? n <;> rfl
    | some name =>
        change (d.tag? n == some (Text.asciiLowered name)) = _
        rw [plain.tag name tag, Dom.tag?]
        cases d.element? n with
        | none => rfl
        | some e => simp [eq_comm]
  rw [all_tests, Compound.holds, tested]
  cases d.element? n with
  | none => rfl
  | some e => simp only [Option.any_some, Bool.and_assoc]

theorem isElement_of_holds {c : Compound} {n : NodeId} (holds : c.holds d n) : d.isElement n := by
  rw [Compound.holds] at holds
  rw [Dom.isElement]
  cases element : d.element? n with
  | none =>
      rw [element] at holds
      cases holds
  | some e => rfl

theorem apply_compound (distinct : d.Distinct) {c : Compound} (plain : c.Plain) (n : NodeId) :
    c.step.apply (Scope.of d) (.node n) = some (((d.children n).filter (c.holds d)).map .node) := by
  have decides : ∀ t ∈ c.tests, Decides (Scope.of d) t.expr (t.holds d) := fun t mem =>
    decides_test distinct (plain.tests t mem)
  have holds : (fun m => c.nodeTest.holds (Scope.of d).dom (.node m) &&
      c.tests.all fun t => t.holds d m) = c.holds d := funext (holds_compound plain d)
  rw [Compound.step, XPath.apply_child decides, holds]
  rfl

/-! ## Chains -/

theorem filter_root (f : d.Forest) : d.document.filter (· == Dom.root) = [Dom.root] := by
  have others : (d.descendants Dom.root).filter (· == Dom.root) = [] := by
    rw [List.filter_eq_nil_iff]
    intro n mem same
    exact f.root_notMem_descendants Dom.root (eq_of_beq same ▸ mem)
  rw [Dom.document, Dom.Forest.preorder_tree, List.filter_cons, others]
  rfl

/-- Two slashes lead from nodes to all that are below them, or are these. -/
theorem applySteps_anywhere (f : d.Forest) (p : NodeId → Bool) (rest : List Step) :
    applySteps (Scope.of d) (.anywhere :: rest) ((d.document.filter p).map .node) =
      applySteps (Scope.of d) rest
        ((d.document.filter fun m => p m || (d.ancestors m).any p).map .node) := by
  refine XPath.applySteps_document f (XPath.apply_anywhere (Scope.of d)) (fun m => ?_) rest
  rw [Bool.or_eq_true, List.any_eq_true]
  constructor
  · rintro ⟨inside, fits | ⟨a, above, fits⟩⟩
    · exact ⟨m, inside, fits, List.mem_cons_self⟩
    · refine ⟨a, f.connected_of_mem_ancestors inside above, fits, List.mem_cons_of_mem a ?_⟩
      exact (f.mem_descendants_iff_mem_ancestors a m).mpr above
  · rintro ⟨n, inside, fits, mem⟩
    obtain rfl | below := List.mem_cons.mp mem
    · exact ⟨inside, .inl fits⟩
    · have above := (f.mem_descendants_iff_mem_ancestors n m).mp below
      refine ⟨?_, .inr ⟨n, above, fits⟩⟩
      have up := (f.mem_ancestors_iff m n).mp above
      exact up.to_reflTransGen.trans inside

/-- A compound leads to the children it holds of. -/
theorem applySteps_compound (f : d.Forest) (distinct : d.Distinct) {c : Compound} (plain : c.Plain)
    (p : NodeId → Bool) (rest : List Step) :
    applySteps (Scope.of d) (c.step :: rest) ((d.document.filter p).map .node) =
      applySteps (Scope.of d) rest
        ((d.document.filter fun m => c.holds d m && (d.parent m).any p).map .node) := by
  refine XPath.applySteps_document f (apply_compound distinct plain) (fun m => ?_) rest
  rw [Bool.and_eq_true, Option.any_eq_true]
  constructor
  · rintro ⟨inside, holds, n, link, fits⟩
    exact ⟨n, (f.connected_iff_parent link).mp inside, fits,
      List.mem_filter.mpr ⟨(f.linked n m).mpr link, holds⟩⟩
  · rintro ⟨n, inside, fits, mem⟩
    obtain ⟨child, holds⟩ := List.mem_filter.mp mem
    have link := (f.linked n m).mp child
    exact ⟨(f.connected_iff_parent link).mpr inside, holds, n, link, fits⟩

/-- All elements of the document are below its root. -/
theorem filter_below_root (f : d.Forest) (c : Compound) :
    (d.document.filter fun m => c.holds d m &&
      (d.parent m).any fun n => n == Dom.root || (d.ancestors n).any (· == Dom.root)) =
    d.document.filter (c.holds d) := by
  refine List.filter_congr fun m mem => ?_
  cases holds : c.holds d m with
  | false => rfl
  | true =>
      obtain rfl | ⟨p, link, up⟩ := (f.mem_document_iff.mp mem).cases_head
      · cases f.not_isElement_root.symm.trans (isElement_of_holds holds)
      · have top : p == Dom.root || (d.ancestors p).any (· == Dom.root) := by
          rw [Bool.or_eq_true, List.any_eq_true, beq_iff_eq]
          refine (Relation.reflTransGen_iff_eq_or_transGen.mp up).imp Eq.symm fun above => ?_
          exact ⟨Dom.root, (f.mem_ancestors_iff p Dom.root).mpr above, beq_self_eq_true _⟩
        rw [show d.parent m = some p from link, Option.any_some, top]
        rfl

/-- What a descendant of nodes asks of its parent. -/
theorem holds_descendant (f : d.Forest) (front : Chain) (c : Compound) :
    (fun m => c.holds d m && (d.parent m).any fun n =>
      front.holds d n || (d.ancestors n).any (front.holds d)) =
    (Chain.next front .descendant c).holds d := by
  funext m
  rw [Chain.holds]
  cases link : d.parent m with
  | none =>
      rw [Dom.Forest.ancestors_of_none link]
      rfl
  | some p => rw [f.ancestors_of_parent link, List.any_cons, Option.any_some]

/-- The steps of a chain lead from the root to the nodes it holds of; the induction is on the chain,
so what follows its front is general. -/
theorem applySteps_chain (f : d.Forest) (distinct : d.Distinct) {chain : Chain}
    (plain : ∀ c ∈ chain.compounds, c.Plain) (rest : List Step) :
    applySteps (Scope.of d) (.anywhere :: (chain.steps ++ rest)) [.node Dom.root] =
      applySteps (Scope.of d) rest ((d.document.filter (chain.holds d)).map .node) := by
  induction chain generalizing rest with
  | one c =>
      have start := applySteps_anywhere f (· == Dom.root) (c.step :: rest)
      rw [filter_root f, applySteps_compound f distinct (plain c List.mem_cons_self),
        filter_below_root f] at start
      exact start
  | next front k c ih =>
      have last := plain c (List.mem_append_right _ List.mem_cons_self)
      have begun := fun rest => ih (fun c mem => plain c (List.mem_append_left _ mem)) rest
      cases k with
      | child =>
          have steps : (Chain.next front .child c).steps ++ rest =
              front.steps ++ c.step :: rest := by
            simp [Chain.steps]
          rw [steps, begun, applySteps_compound f distinct last]
          rfl
      | descendant =>
          have steps : (Chain.next front .descendant c).steps ++ rest =
              front.steps ++ .anywhere :: c.step :: rest := by
            simp [Chain.steps]
          rw [steps, begun, applySteps_anywhere f, applySteps_compound f distinct last,
            holds_descendant f]

/-! ## Groups -/

theorem eval_path (f : d.Forest) (distinct : d.Distinct) {chain : Chain}
    (plain : ∀ c ∈ chain.compounds, c.Plain) (ctx : Context) :
    chain.path.eval (Scope.of d) ctx =
      some (.nodes ((d.document.filter (chain.holds d)).map .node)) := by
  have steps := applySteps_chain f distinct plain []
  rw [List.append_nil] at steps
  rw [Chain.path, Expr.eval, if_pos rfl, steps, applySteps]
  rfl

/-- What the groups hold of, in the order of the document and once each. -/
theorem inOrder_groups (f : d.Forest) (groups : List Chain) :
    (Scope.of d).inOrder
      (groups.map fun chain => (d.document.filter (chain.holds d)).map Item.node).flatten =
    (d.document.filter fun n => groups.any fun chain => chain.holds d n).map .node := by
  refine Scope.inOrder_nodes f _ fun i => ?_
  rw [← List.flatMap_def, List.mem_flatMap]
  simp only [List.mem_map, List.mem_filter, f.mem_document_iff, List.any_eq_true]
  constructor
  · rintro ⟨chain, mem, n, ⟨inside, holds⟩, rfl⟩
    exact ⟨n, inside, ⟨chain, mem, holds⟩, rfl⟩
  · rintro ⟨n, inside, ⟨chain, mem, holds⟩, rfl⟩
    exact ⟨chain, mem, n, ⟨inside, holds⟩, rfl⟩

theorem eval_unionOf (f : d.Forest) (distinct : d.Distinct) {first : Chain} {more : List Chain}
    (plain : ∀ chain ∈ first :: more, ∀ c ∈ chain.compounds, c.Plain) (ctx : Context) :
    (unionOf first more).eval (Scope.of d) ctx = some (.nodes ((d.document.filter fun n =>
      (first :: more).any fun chain => chain.holds d n).map .node)) := by
  have paths : ∀ chain ∈ first :: more, chain.path.eval (Scope.of d) ctx =
      some (.nodes ((d.document.filter (chain.holds d)).map .node)) := fun chain mem =>
    eval_path f distinct (plain chain mem) ctx
  rw [unionOf]
  cases more with
  | nil =>
      have one : (fun n => [first].any fun chain => chain.holds d n) = first.holds d := by
        funext n
        simp
      rw [one]
      exact paths first List.mem_cons_self
  | cons next more =>
      have sets : ((first :: next :: more).map fun chain => Value.nodes
          ((d.document.filter (chain.holds d)).map .node)).mapM Value.nodes? =
          some ((first :: next :: more).map fun chain =>
            (d.document.filter (chain.holds d)).map .node) := by
        rw [List.mapM_map]
        exact XPath.mapM_some fun chain _ => rfl
      rw [if_neg (by simp), Expr.eval, XPath.evalAll_map paths, Option.bind_eq_bind,
        Option.bind_some, sets, Option.bind_eq_bind, Option.bind_some, inOrder_groups f]

/-! ## Accepted selectors -/

/-- The tag, if there is one, and the names of attributes. -/
def Compound.names (c : Compound) : List String := c.tag.toList ++ c.attributes.map (·.name)

end Selector

def Selector.names (s : Selector) : List String :=
  s.chains.flatMap fun chain => chain.compounds.flatMap Selector.Compound.names

namespace Selector

theorem Compound.Spelled.plain {c : Compound} (spelled : c.Spelled) : c.Plain where
  tag name mem := (spelled.tag name mem).lowered
  tests := by
    refine forall_mem_tests (fun value => ?id) (fun name mem => ?classes) (fun t mem => ?attributes)
    case id =>
      have lowered : Text.asciiLowered "id" = "id" := by decide
      exact lowered
    case classes =>
      obtain ⟨some, letters⟩ := spelled.classes name mem
      exact ⟨some, fun c mem => XPath.Token.solid_of_isNameChar (letters c mem)⟩
    case attributes =>
      have lowered := (spelled.attributes t mem).lowered
      rw [AttributeTest.test]
      cases t.value <;> exact lowered

theorem Compound.Spelled.named {c : Compound} (spelled : c.Spelled)
    (begins : ∀ name ∈ c.names, name.toList.head?.any XPath.Token.isNameStart) : c.Named where
  tag name mem := by
    have start := begins name (List.mem_append_left _ (Option.mem_toList.mpr mem))
    exact Bool.and_eq_true_iff.mpr
      ⟨start, List.all_eq_true.mpr (spelled.tag name mem).letters⟩
  tests := by
    refine forall_mem_tests (fun value name mem => ?id) (fun _ _ name mem => by cases mem)
      (fun t mem name mem' => ?attributes)
    case id =>
      obtain rfl := List.mem_singleton.mp mem
      decide
    case attributes =>
      have own : name = t.name := by
        rw [AttributeTest.test] at mem'
        cases value : t.value <;> rw [value] at mem' <;> exact List.mem_singleton.mp mem'
      obtain rfl := own
      have start := begins t.name (List.mem_append_right _ (List.mem_map_of_mem mem))
      exact Bool.and_eq_true_iff.mpr
        ⟨start, List.all_eq_true.mpr (spelled.attributes t mem).letters⟩

/-- The expression of a selector selects, over the whole document, what the selector does. -/
theorem select_xpath (f : d.Forest) (distinct : d.Distinct) {selector : Selector}
    (groups : selector.chains ≠ [])
    (named : ∀ chain ∈ selector.chains, ∀ c ∈ chain.compounds, c.Named)
    (plain : ∀ chain ∈ selector.chains, ∀ c ∈ chain.compounds, c.Plain) :
    XPath.select d selector.xpath none = .ok (selector.select d Dom.root) := by
  obtain ⟨chains⟩ := selector
  obtain ⟨first, more, rfl⟩ := List.exists_cons_of_ne_nil groups
  have value := eval_unionOf f distinct plain ⟨.node Dom.root, 1, 1⟩
  rw [XPath.select_of_nodes (parse?_xpath named) value, List.filter_filter, Dom.document,
    Dom.Forest.preorder_tree, List.filter_cons, f.not_isElement_root, Selector.select,
    Dom.descendantElements, List.filter_filter]
  simp only [Bool.false_and, Bool.and_comm]
  rfl

theorem select_of_parse (f : d.Forest) (distinct : d.Distinct) {text : String}
    {selector : Selector} (accepted : parse text = .ok selector)
    (begins : ∀ name ∈ selector.names, name.toList.head?.any XPath.Token.isNameStart) :
    XPath.select d selector.xpath none = .ok (selector.select d Dom.root) := by
  obtain ⟨groups, spelled⟩ := spelled_of_parse accepted
  refine select_xpath f distinct groups (fun chain mem c mem' => ?_)
    (fun chain mem c mem' => (spelled chain mem c mem').plain)
  refine (spelled chain mem c mem').named fun name mem'' => begins name ?_
  exact List.mem_flatMap.mpr ⟨chain, mem, List.mem_flatMap.mpr ⟨c, mem', mem''⟩⟩

end Selector

end BrowserScript
