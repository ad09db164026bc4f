import BrowserScript.Proofs.Locator.HeadingQueries
import BrowserScript.Proofs.Sandbox.Queries

/-!
What a lookup under a heading finds: the first heading with the text, in document order, in whose
section there is a target. Main statement: `findUnderHeading_finds`.
-/

namespace BrowserScript

namespace Dom

/-- The first text right below a node, empty if there is none. -/
def firstText (d : Dom) (n : NodeId) : String := ((d.children n).findSome? d.text?).getD ""

/-- The ancestor that is so many steps up, if the document is so deep there. -/
def above (d : Dom) : Nat → NodeId → Option NodeId
  | 0, n => some n
  | k + 1, n => (d.parent n).bind (d.above k)

theorem connected_of_above {d : Dom} (f : d.Forest) {n top : NodeId} (inside : d.Connected n)
    {depth : Nat} (above : d.above depth n = some top) : d.Connected top := by
  induction depth generalizing n with
  | zero =>
      obtain rfl := Option.some.inj above
      exact inside
  | succ depth ih =>
      obtain ⟨p, link, above⟩ := Option.bind_eq_some_iff.mp above
      exact ih ((f.connected_iff_parent link).mp inside) above

/-- An element that can be a heading and shows the text. -/
def isHeading (d : Dom) (heading : String) (n : NodeId) : Bool :=
  (d.tag? n).any Locator.headingTags.contains && Text.occursIn heading (d.firstText n)

/-- The text is in the first text of the element or is one of the attributes it is shown in. -/
def isTarget (d : Dom) (target : String) (n : NodeId) : Bool :=
  Text.occursIn target (d.firstText n) ||
    Locator.shownAttributes.any fun name => d.attribute? n name == some target

/-- The first target below the ancestor that is so many steps up. -/
def targetFrom (d : Dom) (depth : Nat) (target : String) (n : NodeId) : Option NodeId :=
  (d.above depth n).bind fun top => (d.descendantElements top).find? (d.isTarget target)

/-- The target of the first heading that has one. -/
def targetUnder (d : Dom) (heading target : String) (depth : Nat) : Option NodeId :=
  ((d.descendantElements root).filter (d.isHeading heading)).findSome? (d.targetFrom depth target)

end Dom

namespace Locator

open Dom (NodeId)
open Selector (Test)
open XPath (Expr Step Scope Value Item Decides evalAll applySteps)

variable {d : Dom} {n : NodeId}

/-! ## Conditions -/

/-- The texts right below a node. -/
def texts (d : Dom) (n : NodeId) : List Item :=
  ((d.children n).filter fun m => (d.text? m).isSome).map .node

/-- The text an expression takes for them. Away from the document they may be out of order, so it
need not be the first. -/
def leadText (d : Dom) (n : NodeId) : String :=
  (Value.nodes ((Scope.of d).inOrder (texts d n))).toText (.of d)

theorem head?_texts (d : Dom) (ns : List NodeId) :
    ((ns.filter fun m => (d.text? m).isSome).map Item.node).head?.map (Scope.of d).stringValue =
      ns.findSome? d.text? := by
  induction ns with
  | nil => rfl
  | cons m ns ih =>
      rw [List.filter_cons, List.findSome?_cons]
      cases text : d.text? m with
      | none => exact ih
      | some s =>
          have own : (Scope.of d).stringValue (.node m) = s := by
            rw [Scope.stringValue, Scope.of, Dom.textContent, text]
          exact congrArg some own

theorem leadText_eq (f : d.Forest) (inside : d.Connected n) : leadText d n = d.firstText n := by
  have part : ((d.children n).filter fun m => (d.text? m).isSome).Sublist d.document :=
    List.filter_sublist.trans ((f.children_sublist n).trans
      ((List.sublist_cons_self ..).trans (f.sublist_document inside)))
  have ordered := Scope.inOrder_eq ((Scope.pairwise_document f).sublist (part.map Item.node))
    fun _ => .rfl
  rw [leadText, texts, Value.toText, ordered, ordered, head?_texts, Dom.firstText]

theorem decides_containsText (d : Dom) (s : String) :
    Decides (.of d) (containsText s) fun n => Text.occursIn s (leadText d n) := by
  refine .of_bool fun n position size => ?_
  have own : ownTexts.eval (.of d) ⟨.node n, position, size⟩ =
      some (.nodes ((Scope.of d).inOrder (texts d n))) := by
    have step : Step.apply (.of d) (.step .child .text []) (.node n) = some (texts d n) := by
      rw [Step.apply, XPath.applyPredicates, XPath.Axis.along, XPath.Axis.ofNode, List.filter_map]
      rfl
    rw [ownTexts, Expr.eval, if_neg Bool.false_ne_true, applySteps, List.mapM_cons, step]
    simp [applySteps]
  rw [containsText, Expr.eval, evalAll, own, evalAll, eval_literalExpr, evalAll]
  rfl

theorem decides_showsText (distinct : d.Distinct) (s : String) :
    Decides (.of d) (showsText s) fun n => Text.occursIn s (leadText d n) ||
      shownAttributes.any fun name => d.attribute? n name == some s := by
  refine .foldl_or (decides_containsText d s) fun name mem => ?_
  have plain : ∀ name ∈ shownAttributes, (Test.equals name s).Plain := by
    have lowered : ∀ name ∈ shownAttributes, Text.asciiLowered name = name := by decide
    exact lowered
  exact Selector.decides_test distinct (plain name mem)

/-! ## Queries -/

theorem applySteps_climb (f : d.Forest) {condition : Expr} {t : NodeId → Bool}
    (decides : Decides (.of d) condition t) (depth : Nat) (inside : d.Connected n) :
    applySteps (.of d) (climb depth condition) [.node n] =
      some (((d.above depth n).toList.flatMap fun top =>
        (d.descendantElements top).filter t).map .node) := by
  induction depth generalizing n with
  | zero =>
      rw [climb, below, List.replicate_zero, List.nil_append,
        XPath.applySteps_below f decides inside, Dom.above]
      simp
  | succ depth ih =>
      have next := XPath.applySteps_single (XPath.apply_parent (.of d) n) (climb depth condition)
      rw [climb, List.replicate_succ, List.cons_append, ← climb, next, Dom.above]
      change applySteps _ _ ((d.parent n).toList.map Item.node) = _
      cases link : d.parent n with
      | none => exact XPath.applySteps_none _ _
      | some p => exact ih ((f.connected_iff_parent link).mp inside)

/-- Conditions on texts of elements of the document are about their first texts. -/
theorem filter_leadText (f : d.Forest) {top : NodeId} (inside : d.Connected top)
    (p : String → NodeId → Bool) :
    ((d.descendantElements top).filter fun n => p (leadText d n) n).filter d.isElement =
      (d.descendantElements top).filter fun n => p (d.firstText n) n := by
  rw [List.filter_filter]
  refine List.filter_congr fun n mem => ?_
  rw [Dom.Forest.isElement_of_mem_below mem, leadText_eq f (f.connected_of_mem_below inside mem),
    Bool.true_and]

theorem select_headingPath (f : d.Forest) (heading : String) :
    XPath.select d (headingPath heading) none = .ok ((d.descendantElements Dom.root).filter
      fun n => Text.occursIn heading (d.firstText n)) := by
  have found := XPath.applySteps_below f (decides_containsText d heading) .refl
  have value : (headingExpr heading).eval (.of d) ⟨.node Dom.root, 1, 1⟩ =
      some (.nodes (((d.descendantElements Dom.root).filter
        fun n => Text.occursIn heading (leadText d n)).map .node)) := by
    rw [headingExpr, Expr.eval, if_pos rfl, below, found]
    rfl
  rw [XPath.select_of_nodes (parse?_headingPath heading) value,
    filter_leadText f .refl fun text _ => Text.occursIn heading text]

theorem select_sectionPath (f : d.Forest) (distinct : d.Distinct) (depth : Nat) (target : String)
    (inside : d.Connected n) :
    XPath.select d (sectionPath depth target) (some n) =
      .ok ((d.above depth n).toList.flatMap fun top =>
        (d.descendantElements top).filter (d.isTarget target)) := by
  have found := applySteps_climb f (decides_showsText distinct target) depth inside
  have value : (sectionExpr depth target).eval (.of d) ⟨.node n, 1, 1⟩ =
      (applySteps (.of d) (climb depth (showsText target)) [.node n]).map .nodes := by
    have own : Step.apply (.of d) (.step .self .node []) (.node n) =
        some ((some n).toList.map .node) := XPath.apply_self (.of d) n
    rw [sectionExpr, Expr.eval, if_neg Bool.false_ne_true, XPath.applySteps_single own]
    rfl
  rw [found] at value
  rw [XPath.select_of_nodes (parse?_sectionPath depth target) value]
  refine congrArg Except.ok ?_
  cases above : d.above depth n with
  | none => rfl
  | some top =>
      rw [Option.toList_some, List.flatMap_singleton, List.flatMap_singleton]
      exact filter_leadText f (Dom.connected_of_above f inside above) fun text m =>
        Text.occursIn target text ||
          shownAttributes.any fun name => d.attribute? m name == some target

/-! ## Validity -/

theorem walks_below {s : Scope} {condition : Expr} {t : NodeId → Bool}
    (decides : Decides s condition t) : ∀ st ∈ below condition, st.Walks s :=
  List.forall_mem_cons.mpr ⟨fun n => ⟨n :: s.dom.descendants n, XPath.apply_anywhere s n⟩,
    List.forall_mem_singleton.mpr fun n => ⟨_, XPath.apply_child_one decides .any n⟩⟩

/-- The query of headings is valid, whatever the text and wherever it starts. -/
theorem exists_select_headingPath (d : Dom) (heading : String) (start : Option NodeId) :
    ∃ found, XPath.select d (headingPath heading) start = .ok found :=
  XPath.exists_select (parse?_headingPath heading) (walks_below (decides_containsText d heading))
    start

theorem exists_select_sectionPath (distinct : d.Distinct) (depth : Nat) (target : String)
    (start : Option NodeId) :
    ∃ found, XPath.select d (sectionPath depth target) start = .ok found := by
  refine XPath.exists_select (parse?_sectionPath depth target) ?_ start
  refine List.forall_mem_cons.mpr ⟨fun n => ⟨[n], XPath.apply_self _ n⟩, ?_⟩
  refine List.forall_mem_append.mpr ⟨fun st mem => ?_,
    walks_below (decides_showsText distinct target)⟩
  obtain rfl := (List.mem_replicate.mp mem).2
  exact fun n => ⟨_, XPath.apply_parent _ n⟩

end Locator

namespace Sandbox

open Locator
open Page (Handle Access)
open Dom (NodeId)
open Prog (Asks)

variable {L σ : Type} {s : Sandbox L} {n : NodeId}

/-! ## Lookups -/

theorem eval_firstSome {α β γ : Type} {f : β → Access (Option γ)} {name : α → β}
    {g : α → Option γ} {as : List α} (each : ∀ a ∈ as, s.eval (f (name a)) = .ok (g a)) :
    s.eval (firstSome f (as.map name)) = .ok (as.findSome? g) := by
  induction as with
  | nil => rfl
  | cons a rest ih =>
      obtain ⟨first, each⟩ := List.forall_mem_cons.mp each
      rw [List.map_cons, firstSome, eval_bind_ok first, List.findSome?_cons]
      cases g a with
      | none => exact ih each
      | some b => rfl

theorem answer_tag {el : Handle} (resolves : s.document.resolve el = .ok n) :
    s.answer (.tag el) = Except.ok ((s.dom.tag? n).getD "") := by
  change (do return (s.dom.tag? (← s.document.resolve el)).getD "") = _
  rw [resolves]
  rfl

theorem firstSome_asks {P : Page.Request → Prop} {α β : Type} {f : α → Access (Option β)}
    (each : ∀ a, Asks P (f a).run) (as : List α) : Asks P (firstSome f as).run := by
  induction as with
  | nil => trivial
  | cons a rest ih =>
      refine (each a).bind_run fun found => ?_
      cases found with
      | none => exact ih
      | some b => trivial

theorem underHeading_asks (heading target : String) (depth : Nat) :
    Asks (fun r => isReading r) (underHeading heading target depth).run := by
  have xpath (expression : String) (context : Option Handle) :
      Asks (fun r => isReading r) (Page.xpath expression context).run := ⟨rfl, fun _ => trivial⟩
  have tag (el : Handle) : Asks (fun r => isReading r) (Page.tag el).run := ⟨rfl, fun _ => trivial⟩
  refine (xpath _ _).bind_run fun found => firstSome_asks (fun candidate => ?_) found
  refine (tag candidate).bind_run fun own => ?_
  split
  · exact (xpath _ _).bind_run fun _ => trivial
  · trivial

/-- What is found from one candidate. -/
theorem eval_candidate (f : s.dom.Forest) (distinct : s.dom.Distinct)
    (small : s.dom.size ≤ 1 <<< 32) (depth : Nat) (target : String) (inside : s.dom.Connected n)
    (element : s.dom.isElement n) :
    s.eval (do
      if headingTags.contains (← Page.tag (s.handle n)) then
        return (← Page.xpath (sectionPath depth target) (some (s.handle n))).head?
      else return none) =
    .ok (if (s.dom.tag? n).any headingTags.contains then
      (s.dom.targetFrom depth target n).map s.handle else none) := by
  have less := f.lt_size_of_connected inside
  have resolves : s.document.resolve (s.handle n) = .ok n :=
    resolve_handle ⟨less, .inr element⟩ (Nat.lt_of_lt_of_le less small)
  have starts : (some (s.handle n)).mapM s.document.resolve = .ok (some n) := by
    rw [Option.mapM_some, resolves]
    rfl
  obtain ⟨e, own⟩ := Option.isSome_iff_exists.mp element
  have tag : s.dom.tag? n = some e.tag := by rw [Dom.tag?, own, Option.map_some]
  have tagged : s.eval (Page.tag (s.handle n)) = .ok e.tag := by
    have answered := answer_tag resolves
    rwa [tag] at answered
  have found : s.eval (Page.xpath (sectionPath depth target) (some (s.handle n))) =
      .ok (s.handles ((s.dom.above depth n).toList.flatMap fun top =>
        (s.dom.descendantElements top).filter (s.dom.isTarget target))) :=
    answer_xpath_from starts (select_sectionPath f distinct depth target inside)
  rw [eval_bind_ok tagged, tag, Option.any_some]
  split
  · rw [eval_bind_ok found, handles, List.head?_map, Dom.targetFrom]
    refine congrArg (fun found : Option NodeId => Except.ok (found.map s.handle)) ?_
    cases s.dom.above depth n with
    | none => rfl
    | some top => simp
  · rfl

theorem findSome?_filter {α β : Type} (p : α → Bool) (g : α → Option β) (as : List α) :
    (as.filter p).findSome? g = as.findSome? fun a => if p a then g a else none := by
  induction as with
  | nil => rfl
  | cons a as ih =>
      rw [List.filter_cons, List.findSome?_cons]
      cases p a with
      | true => rw [if_pos rfl, List.findSome?_cons, ih, if_pos rfl]
      | false => exact ih

theorem eval_underHeading (f : s.dom.Forest) (distinct : s.dom.Distinct)
    (small : s.dom.size ≤ 1 <<< 32) (heading target : String) (depth : Nat) :
    s.eval (underHeading heading target depth) =
      .ok ((s.dom.targetUnder (Command.unquote (Text.trimmed heading))
        (Command.unquote (Text.trimmed target)) depth).map s.handle) := by
  generalize heading' : Command.unquote (Text.trimmed heading) = h
  generalize target' : Command.unquote (Text.trimmed target) = t
  have candidates : s.eval (Page.xpath (headingPath h) none) =
      .ok (s.handles ((s.dom.descendantElements Dom.root).filter
        fun n => Text.occursIn h (s.dom.firstText n))) :=
    answer_xpath s (select_headingPath f h)
  have headings : (s.dom.descendantElements Dom.root).filter (s.dom.isHeading h) =
      ((s.dom.descendantElements Dom.root).filter fun n =>
        Text.occursIn h (s.dom.firstText n)).filter fun n =>
          (s.dom.tag? n).any headingTags.contains := List.filter_filter.symm
  rw [underHeading, heading', target', eval_bind_ok candidates, handles, Dom.targetUnder, headings,
    findSome?_filter, List.map_findSome?]
  -- the tags are looked at one candidate at a time, so the filter by tag is part of each step
  refine eval_firstSome fun n mem => ?_
  have mem := (List.mem_filter.mp mem).1
  rw [eval_candidate f distinct small depth t (f.connected_of_mem_below .refl mem)
    (Dom.Forest.isElement_of_mem_below mem), Function.comp_apply]
  split <;> rfl

/-- After any operations a lookup under a heading finds, whatever the texts are, the first target
from the first heading that has one, and it changes nothing. Its queries are valid, wherever they
start. No two nodes may share a handle, so there are as many nodes at most as numbers for them. -/
theorem findUnderHeading_finds (react : React L (StateM σ)) (acts : Acts react)
    (url markup : String) (s : Sandbox L) (reaches : Reaches react (ofMarkup url markup) s)
    (small : s.dom.size ≤ 1 <<< 32) (heading target : String) (depth : Nat) (w : σ) :
    let h := Command.unquote (Text.trimmed heading)
    let t := Command.unquote (Text.trimmed target)
    ((perform react (findUnderHeading heading target depth)).run s).run w =
      (((s.dom.targetUnder h t depth).map s.handle, s), w) ∧
    ∀ start, (∃ found, XPath.select s.dom (headingPath h) start = .ok found) ∧
      ∃ found, XPath.select s.dom (sectionPath depth t) start = .ok found := by
  have sane := reaches.sane acts (sane_ofMarkup url markup)
  refine ⟨?finds, fun start => ⟨exists_select_headingPath s.dom _ start,
    exists_select_sectionPath sane.distinct depth _ start⟩⟩
  have asks : Asks (fun r => isReading r) (findUnderHeading heading target depth) :=
    (underHeading_asks heading target depth).bind fun r => by cases r <;> trivial
  have result : (findUnderHeading heading target depth).run (m := Id) s.answer =
      (s.dom.targetUnder (Command.unquote (Text.trimmed heading))
        (Command.unquote (Text.trimmed target)) depth).map s.handle := by
    refine (Prog.still_bind s.answer (underHeading heading target depth).result _).trans ?_
    have ended : (underHeading heading target depth).result.still s.answer = .ok _ :=
      eval_underHeading sane.forest sane.distinct small heading target depth
    rw [ended]
    rfl
  rw [perform_reading react asks, result]
  rfl

namespace Billed

/-! Two parts have the heading; the target is in the second one only. Both texts have quotes of
both kinds, and the heading is written in quotes of its own. -/

def page : Sandbox Unit :=
  .ofMarkup "https://shop.example/"
    ("<div><h3>It's \"due\"</h3></div>" ++
      "<div><h3>It's \"due\" soon</h3><p><input alt=\"it's &quot;now&quot;\"></p></div>")

theorem input_found :
    Acts Queried.idle ∧ Reaches Queried.idle page page ∧ page.dom.size ≤ 1 <<< 32 ∧
    headingPath "It's \"due\"" = "//*[contains(text(), concat('It', \"'\", 's \"due\"'))]" ∧
    ((perform Queried.idle
      (findUnderHeading " 'It's \"due\"' " "it's \"now\"" 1)).run page).run () =
        ((some (page.handle 8), page), ()) := by
  have acts : Acts Queried.idle := fun _ _ _ _ _ => ⟨0, .start⟩
  have small : page.dom.size ≤ 1 <<< 32 := by decide +kernel
  have found := findUnderHeading_finds Queried.idle acts "https://shop.example/" _ page .start small
    " 'It's \"due\"' " "it's \"now\"" 1 ()
  have target : page.dom.targetUnder (Command.unquote (Text.trimmed " 'It's \"due\"' "))
      (Command.unquote (Text.trimmed "it's \"now\"")) 1 = some 8 := by
    decide +kernel
  have result := found.1
  rw [target] at result
  exact ⟨acts, .start, small, by decide +kernel, result⟩

end Billed

end Sandbox

end BrowserScript
