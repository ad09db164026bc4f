import BrowserScript.Page.Interaction
import BrowserScript.Proofs.Selector.Agreement
import BrowserScript.Proofs.XPath.Found

/-!
The query for the options of a list that carry a value. Whatever the value is, it is read back as
the steps to these options, from any node that the list can be. The one that is found first is the
first in preorder in the document; in a part that was taken out of it, it is the one that was made
first.
-/

namespace BrowserScript

open Dom (NodeId)
open Selector (Compound Test)

namespace Dom

/-- The options of a list with the value as an attribute. -/
def carriers (d : Dom) (list : NodeId) (value : String) : List NodeId :=
  (d.options list).filter fun o => d.attribute? o "value" == some value

/-- The one of them that a query finds first. -/
def firstCarrier (d : Dom) (list : NodeId) (value : String) : Option NodeId :=
  if d.isConnected list then (d.carriers list value).head? else (d.carriers list value).min?

variable {d : Dom} {list o : NodeId} {value : String}

theorem mem_options_iff :
    o ∈ d.options list ↔ o ∈ d.descendants list ∧ d.tag? o = some "option" := by
  have element : d.tag? o = some "option" → d.isElement o := by
    rw [tag?, isElement]
    cases d.element? o <;> simp
  rw [options, descendantElements, List.mem_filter, List.mem_filter, beq_iff_eq, and_assoc]
  exact and_congr_right fun _ => ⟨And.right, fun tag => ⟨element tag, tag⟩⟩

theorem mem_carriers_iff : o ∈ d.carriers list value ↔
    o ∈ d.options list ∧ d.attribute? o "value" = some value := by
  rw [carriers, List.mem_filter, beq_iff_eq]

theorem mem_carriers_of_first (first : d.firstCarrier list value = some o) :
    o ∈ d.carriers list value := by
  unfold firstCarrier at first
  split at first
  · exact List.mem_of_mem_head? first
  · exact (List.min?_eq_some_iff.mp first).1

/-- Numbers that go up begin with the least of them. -/
theorem head?_eq_min? {ns ms : List Nat} (ordered : ns.Pairwise (· < ·))
    (same : ∀ n, n ∈ ns ↔ n ∈ ms) : ns.head? = ms.min? := by
  cases ns with
  | nil =>
      have none : ms = [] :=
        List.eq_nil_iff_forall_not_mem.mpr fun n mem => List.not_mem_nil ((same n).mpr mem)
      rw [none]
      rfl
  | cons n ns =>
      refine (List.min?_eq_some_iff.mpr ⟨(same n).mp List.mem_cons_self, fun m mem => ?_⟩).symm
      obtain rfl | later := List.mem_cons.mp ((same m).mpr mem)
      · exact Nat.le_refl m
      · exact Nat.le_of_lt ((List.pairwise_cons.mp ordered).1 m later)

/-- Of the options in the order of node sets the first one is the first. -/
theorem Forest.head?_eq_firstCarrier (f : d.Forest) {found : List NodeId}
    (ordered : found.Pairwise (XPath.Scope.of d).Earlier)
    (same : ∀ o, o ∈ found ↔ o ∈ d.carriers list value) :
    found.head? = d.firstCarrier list value := by
  have below {o : NodeId} (mem : o ∈ d.carriers list value) : o ∈ d.descendants list :=
    (mem_options_iff.mp (mem_carriers_iff.mp mem).1).1
  unfold firstCarrier
  split
  · next inside =>
    have within := (f.isConnected_iff list).mp inside
    have part : (d.carriers list value).Sublist d.document :=
      List.filter_sublist.trans (List.filter_sublist.trans (List.filter_sublist.trans
        ((List.sublist_cons_self ..).trans (f.sublist_document within))))
    rw [List.Pairwise.eq_of_mem_iff ordered
      ((XPath.Scope.pairwise_earlier_document f).sublist part) same]
  · next outside =>
    refine head?_eq_min? (ordered.imp_of_mem fun {a b} memA memB earlier => ?_) same
    have apart {o : NodeId} (mem : o ∈ found) : o ∉ d.document := by
      intro inside
      have up := ((f.mem_descendants_iff list o).mp (below ((same o).mp mem))).to_reflTransGen
      refine outside ((f.isConnected_iff list).mpr ?_)
      rw [f.connected_iff_topOf, ← f.topOf_of_reflTransGen up, ← f.connected_iff_topOf]
      exact f.mem_document_iff.mp inside
    exact (XPath.Scope.earlier_iff_lt f (apart memA) (apart memB)).mp earlier

end Dom

namespace Page

open XPath (Expr Step Token tokens? tokens?_next)

variable {d : Dom} {o : NodeId}

/-- An option with the value as an attribute. -/
def carrier (value : String) : Compound :=
  { tag := some "option", attributes := [⟨"value", some value⟩] }

def optionExpr (value : String) : Expr :=
  .path false [.step .self .node [], .anywhere, (carrier value).step]

def optionTokens (value : String) : List Token := .dot :: .doubleSlash :: (carrier value).tokens

/-! ## Reading -/

theorem tests_carrier (value : String) : (carrier value).tests = [.equals "value" value] := rfl

theorem named_carrier (value : String) : (carrier value).Named where
  tag name mem := by
    obtain rfl := Option.some.inj mem
    decide
  tests := by
    rw [tests_carrier]
    exact List.forall_mem_singleton.mpr (List.forall_mem_singleton.mpr (by decide))

theorem plain_carrier (value : String) : (carrier value).Plain where
  tag name mem := by
    obtain rfl := Option.some.inj mem
    decide
  tests := by
    rw [tests_carrier]
    exact List.forall_mem_singleton.mpr (by decide : Text.asciiLowered "value" = "value")

theorem xpath_carrier (value : String) :
    (carrier value).xpath = "option[@value=" ++ Locator.literal value ++ "]" := by
  have tag : (carrier value).tag = some "option" := rfl
  have condition : (Test.equals "value" value).condition =
      "@" ++ "value" ++ "=" ++ Locator.literal value := rfl
  rw [Compound.xpath, tests_carrier, List.map_singleton, Test.xpath, condition, tag]
  apply String.toList_inj.mp
  simp

theorem tokens?_optionPath (value : String) :
    tokens? (optionPath value).toList = some (optionTokens value) := by
  have text (cs : List Char) : ".//option[@value=".toList ++ cs =
      '.' :: '/' :: '/' :: ("option[@value=".toList ++ cs) := rfl
  have whole : (optionPath value).toList = '.' :: '/' :: '/' :: (carrier value).xpath.toList := by
    unfold optionPath
    rw [xpath_carrier, String.toList_append, String.toList_append, List.append_assoc, text,
      String.toList_append, String.toList_append, List.append_assoc]
  have nothing : XPath.EndsName [] := by simp [XPath.EndsName]
  have read := Selector.tokens?_compound (named_carrier value) nothing
  rw [List.append_nil] at read
  rw [whole, tokens?_next rfl rfl, tokens?_next rfl rfl, read, tokens?]
  simp [optionTokens]

theorem path_option (depth : Nat) (value : String) :
    XPath.path (XPath.expr (depth + 4)) (optionTokens value) = some (optionExpr value, []) := by
  obtain ⟨round, start, next, stop⟩ := XPath.steps_rounds (XPath.expr (depth + 4))
  have reads : ∀ t ∈ (carrier value).tests, XPath.Reads (XPath.expr (depth + 4)) t.tokens t.expr :=
    fun t _ => Selector.reads_test depth t
  have last := Selector.step_compound reads (XPath.ends_nil 9)
  rw [List.append_nil] at last
  have unfiltered : XPath.predicates (XPath.expr (depth + 4))
      (.doubleSlash :: (carrier value).tokens) =
      some ([], .doubleSlash :: (carrier value).tokens) :=
    XPath.predicates_none (by simp)
  have own : XPath.step (XPath.expr (depth + 4)) (optionTokens value) =
      some (.step .self .node [], .doubleSlash :: (carrier value).tokens) := by
    simp [optionTokens, XPath.step, unfiltered]
  have below := (next [.step .self .node []] _ _ _ last).2
  have all := start _ _ _ own
  rw [Text.loop_next below (Nat.zero_lt_succ _),
    Text.loop_stop (stop _ _ (by simp) (by simp))] at all
  unfold optionTokens at all ⊢
  simp [XPath.path, XPath.startsStep, all, optionExpr]

theorem parse?_optionPath (value : String) :
    Expr.parse? (optionPath value) = some (optionExpr value) := by
  rw [Expr.parse?, tokens?_optionPath]
  refine XPath.ofTokens?_of_path 4 ?_ fun depth => path_option depth value
  simp [optionTokens, Compound.tokens, tests_carrier]

/-! ## Finding -/

theorem holds_carrier (value : String) : (carrier value).holds d o ↔
    d.tag? o = some "option" ∧ d.attribute? o "value" = some value := by
  have tag : (carrier value).nodeTest.holds d (.node o) = (d.tag? o == some "option") := by
    have lowered : Text.asciiLowered "option" = "option" := by decide
    change (d.tag? o == some (Text.asciiLowered "option")) = _
    rw [lowered]
  rw [← Selector.holds_compound (plain_carrier value), tests_carrier, tag, List.all_cons,
    List.all_nil, Bool.and_true, Bool.and_eq_true]
  exact and_congr beq_iff_eq beq_iff_eq

theorem exists_select_optionPath (f : d.Forest) (distinct : d.Distinct) (list : NodeId)
    (value : String) : ∃ found, XPath.select d (optionPath value) (some list) = .ok found ∧
      found.head? = d.firstCarrier list value := by
  have self : Step.apply (.of d) (.step .self .node []) (.node list) =
      some ((some list).toList.map .node) := XPath.apply_self (.of d) list
  have anywhere (n : NodeId) : Step.anywhere.apply (.of d) (.node n) =
      some ((n :: d.descendants n).map .node) := XPath.apply_anywhere (.of d) n
  have child := Selector.apply_compound distinct (plain_carrier value)
  obtain ⟨around, memAround, second⟩ :=
    XPath.exists_applySteps_cons anywhere [(carrier value).step] [list]
  obtain ⟨found, mem, third⟩ := XPath.exists_applySteps_cons child [] around
  have evaluated : (optionExpr value).eval (.of d) ⟨.node ((some list).getD Dom.root), 1, 1⟩ =
      some (.nodes (found.map .node)) := by
    have first := XPath.applySteps_single self [.anywhere, (carrier value).step]
    have stops : XPath.applySteps (.of d) [] (found.map .node) = some (found.map .node) := by
      rw [XPath.applySteps]
    rw [optionExpr, Expr.eval, if_neg Bool.false_ne_true]
    exact congrArg (Option.map XPath.Value.nodes)
      (first.trans (second.trans (third.trans stops)))
  have selects := XPath.select_of_nodes (parse?_optionPath value) evaluated
  refine ⟨_, selects, f.head?_eq_firstCarrier (XPath.select_found f selects).2 fun o => ?_⟩
  have reached : o ∈ found ↔ o ∈ d.descendants list ∧ (carrier value).holds d o := by
    simp only [mem, memAround, f.mem_descendants_iff_children list, List.mem_singleton,
      exists_eq_left, List.mem_filter]
    constructor
    · rintro ⟨p, around, link, holds⟩
      exact ⟨⟨p, around, link⟩, holds⟩
    · rintro ⟨⟨p, around, link⟩, holds⟩
      exact ⟨p, around, link, holds⟩
  have element (holds : (carrier value).holds d o) : d.isElement o :=
    Selector.isElement_of_holds holds
  rw [List.mem_filter, reached, and_iff_left_of_imp fun both => element both.2, holds_carrier,
    Dom.mem_carriers_iff, Dom.mem_options_iff, and_assoc]

end Page

end BrowserScript
