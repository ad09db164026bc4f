import BrowserScript.Proofs.Sandbox.Handles
import BrowserScript.Proofs.Selector.Agreement
import BrowserScript.Proofs.XPath.Found

/-!
The two ways to ask a sandbox for elements, whatever has been done to it. Main statements:
`selector_eq_xpath`, a selector and the expression it is written as are answered with the same
handles in the same order; `xpath_finds`, an expression finds elements, each once, and in which
order.
-/

namespace BrowserScript.Sandbox

open Page (Handle)

variable {L σ : Type} {s : Sandbox L} {text : String} {selector : Selector}

theorem answer_all (s : Sandbox L) (accepted : Selector.parse text = .ok selector) :
    s.answer (.all text) = Except.ok (s.handles (selector.select s.dom Dom.root)) := by
  change s.select text = _
  rw [select, accepted]
  rfl

theorem answer_xpath_from {expression : String} {context : Option Handle}
    {start : Option Dom.NodeId} {found : List Dom.NodeId}
    (starts : context.mapM s.document.resolve = .ok start)
    (selects : XPath.select s.dom expression start = .ok found) :
    s.answer (.xpath expression context) = Except.ok (s.handles found) := by
  change (do
    let context ← context.mapM s.document.resolve
    return s.handles (← XPath.select s.dom expression context)) = _
  rw [starts]
  change (do return s.handles (← XPath.select s.dom expression start)) = _
  rw [selects]
  rfl

theorem answer_xpath (s : Sandbox L) {expression : String} {found : List Dom.NodeId}
    (selects : XPath.select s.dom expression none = .ok found) :
    s.answer (.xpath expression none) = Except.ok (s.handles found) :=
  answer_xpath_from rfl selects

/-- After any operations a selector and its expression are answered with the same elements in the
same order, and neither question changes anything. -/
theorem selector_eq_xpath (react : React L (StateM σ)) (acts : Acts react) (url markup : String)
    (s : Sandbox L) (reaches : Reaches react (ofMarkup url markup) s) (text : String)
    (selector : Selector) (accepted : Selector.parse text = .ok selector)
    (begins : ∀ name ∈ selector.names, ∃ c ∈ name.toList.head?, Text.isLetter c ∨ c = '_') (w : σ) :
    let found := s.handles (selector.select s.dom Dom.root)
    ((serve react (.all text)).run s).run w = ((.ok found, s), w) ∧
      ((serve react (.xpath selector.xpath none)).run s).run w = ((.ok found, s), w) := by
  have sane := reaches.sane acts (sane_ofMarkup url markup)
  have starts : ∀ name ∈ selector.names, name.toList.head?.any XPath.Token.isNameStart := by
    intro name mem
    obtain ⟨c, first, letter⟩ := begins name mem
    rw [Option.mem_def.mp first, Option.any_some, XPath.Token.isNameStart, Bool.or_eq_true,
      beq_iff_eq]
    exact letter
  have selects := Selector.select_of_parse sane.forest sane.distinct accepted starts
  constructor
  · rw [serve_reading react rfl, answer_all s accepted]
    rfl
  · rw [serve_reading react rfl, answer_xpath s selects]
    rfl

namespace Queried

/-! A form gets an element whose attribute has quotes of both kinds; it is asked for by its class
parent, as a second group beside the form. -/

def page : Sandbox Unit :=
  .ofMarkup "https://shop.example/" "<form id=f><div class=' row  main '></div></form>"

def idle : React Unit (StateM Unit) := fun _ _ _ => pure ()

def grown : Sandbox Unit :=
  (Operation.outside (.appendMarkup (page.handle 2) "<i data-x=\"it's &quot;q&quot;\">a</i>")).after
    idle page ()

def asked : String := "form > .main [Data-X=\"it's \"q\"\"], #f"

def wanted : Selector :=
  ⟨[.next (.next (.one { tag := some "form" }) .child { classes := ["main"] }) .descendant
      { attributes := [⟨"data-x", some "it's \"q\""⟩] },
    .one { id := some "f" }]⟩

theorem quoted_found :
    Selector.parse asked = .ok wanted ∧ Reaches idle page grown ∧
    wanted.xpath = "//form/*[contains(concat(' ', normalize-space(@class), ' '), ' main ')]" ++
      "//*[@data-x=concat('it', \"'\", 's \"q\"')] | //*[@id='f']" ∧
    wanted.select grown.dom Dom.root = [1, 3] ∧
    ((serve idle (.xpath wanted.xpath none)).run grown).run () =
      ((.ok (grown.handles (wanted.select grown.dom Dom.root)), grown), ()) := by
  have accepted : Selector.parse asked = .ok wanted := by decide +kernel
  have acts : Acts idle := fun _ _ _ _ _ => ⟨0, .start⟩
  have reaches : Reaches idle page grown :=
    .step .start (.outside (.appendMarkup (page.handle 2) "<i data-x=\"it's &quot;q&quot;\">a</i>"))
      trivial ()
  have begins : ∀ name ∈ wanted.names, ∃ c ∈ name.toList.head?, Text.isLetter c ∨ c = '_' := by
    have names : wanted.names = ["form", "data-x"] := by decide +kernel
    rw [names]
    intro name mem
    rcases List.mem_pair.mp mem with rfl | rfl
    · exact ⟨'f', rfl, .inl (by decide)⟩
    · exact ⟨'d', rfl, .inl (by decide)⟩
  have both := selector_eq_xpath idle acts "https://shop.example/" _ grown reaches asked wanted
    accepted begins ()
  exact ⟨accepted, reaches, by decide +kernel, by decide +kernel, both.2⟩

end Queried

/-! ## Expressions from any element -/

theorem handle_injective {n m : Dom.NodeId} (same : s.handle n = s.handle m) : n = m :=
  Nat.add_left_cancel (Handle.mk.inj same)

/-- The node that an expression is read from. -/
def StartsAt (s : Sandbox L) (context : Option Handle) (c : Dom.NodeId) : Prop :=
  match context with
  | none => c = Dom.root
  | some el => s.document.resolve el = .ok c

theorem select_of_answer {expression : String} {context : Option Handle} {els : List Handle}
    (answered : s.answer (.xpath expression context) = Except.ok els) :
    ∃ start found, XPath.select s.dom expression start = .ok found ∧ els = s.handles found ∧
      s.StartsAt context (start.getD Dom.root) := by
  obtain ⟨start, named, answered⟩ := ok_of_bind (a := context.mapM s.document.resolve) answered
  obtain ⟨found, selects, answered⟩ := ok_of_bind answered
  obtain rfl := Except.ok.inj answered
  refine ⟨start, found, selects, rfl, ?_⟩
  cases context with
  | none =>
      obtain rfl := Except.ok.inj named
      rfl
  | some el =>
      obtain ⟨c, resolved, named⟩ := ok_of_bind named
      obtain rfl := Except.ok.inj named
      exact resolved

/-- After any operations an expression finds, from the document or from an element that may be
attached or not, elements of its tree and of the document, none twice. Those of the document come
in preorder and before all others, and these in the order in which they were made: the answer is in
document order exactly when the expression is read from a node of the document, or the elements
found in the tree of that node were made in that order. -/
theorem xpath_finds (react : React L (StateM σ)) (acts : Acts react) (url markup : String)
    (s : Sandbox L) (reaches : Reaches react (ofMarkup url markup) s) (expression : String)
    (context : Option Handle) (w : σ) (els : List Handle)
    (answered : (((serve react (.xpath expression context)).run s).run w).1.1 = Except.ok els) :
    ∃ c found, s.StartsAt context c ∧ els = s.handles found ∧ els.Nodup ∧
      (∀ n ∈ found, s.dom.isElement n ∧ (n ∈ s.dom.treeOf c ∨ n ∈ s.dom.document)) ∧
      found = s.dom.document.filter (· ∈ found) ++
        (List.range s.dom.size).filter (fun n => n ∉ s.dom.document ∧ n ∈ found) ∧
      (s.dom.InDocumentOrder found ↔ s.dom.Connected c ∨
        ((s.dom.treeOf c).filter (· ∈ found)).Pairwise (· < ·)) := by
  have f := (reaches.sane acts (sane_ofMarkup url markup)).forest
  rw [serve_reading react rfl] at answered
  obtain ⟨start, found, selects, rfl, starts⟩ := select_of_answer answered
  obtain ⟨within, ordered⟩ := XPath.select_found f selects
  have once : found.Nodup := ordered.imp fun first => by
    rintro rfl
    exact Nat.lt_irrefl _ first
  have small : ∀ n ∈ found, n < s.dom.size := fun n mem =>
    Dom.lt_size_of_isElement (within n mem).1
  exact ⟨start.getD Dom.root, found, starts, rfl,
    once.map_on fun _ _ _ _ => handle_injective, within,
    XPath.eq_of_ordered f ordered small, XPath.inDocumentOrder_iff f selects⟩

namespace Regrown

/-! A part is taken out of the document, and its first paragraph gets a child there. -/

open XPath (Expr)

def page : Sandbox Unit := .ofMarkup "https://shop.example/" "<div><p></p><p></p></div>"

def part : Handle := page.handle 1

def removed : Sandbox Unit := (Operation.outside (.remove part)).after Queried.idle page ()

def grow : Operation Unit := .outside (.appendMarkup (page.handle 2) "<i></i>")

def grown : Sandbox Unit := grow.after Queried.idle removed ()

def isInside : Option Expr → Bool
  | some (.path false [.step .descendant .any []]) => true
  | _ => false

theorem parse_inside :
    Expr.parse? "descendant::*" = some (.path false [.step .descendant .any []]) := by
  have read : isInside (Expr.parse? "descendant::*") := by decide +kernel
  unfold isInside at read
  split at read
  · assumption
  · cases read

theorem select_inside :
    XPath.select grown.dom "descendant::*" (some 1) = .ok [2, 3, 4] := by
  have walked : [XPath.Item.node 1].mapM
      (XPath.Step.apply (.of grown.dom) (.step .descendant .any [])) =
      some [[.node 2, .node 4, .node 3]] := by
    decide +kernel
  have ordered : ([2, 3, 4].map XPath.Item.node).Pairwise
      fun a b => ¬ (XPath.Scope.of grown.dom).before b a := by
    decide +kernel
  have evaluated : Expr.eval (.of grown.dom) (.path false [.step .descendant .any []])
      ⟨.node 1, 1, 1⟩ = some (.nodes ([2, 3, 4].map .node)) := by
    rw [Expr.eval, if_neg Bool.false_ne_true, XPath.applySteps_eq walked ordered (by simp; tauto)]
    rfl
  rw [XPath.select, parse_inside]
  dsimp only [Option.bind_eq_bind, Option.bind_some, Option.getD_some]
  rw [evaluated]
  decide +kernel

/-- The child comes after the second paragraph. -/
theorem child_found_last :
    Acts Queried.idle ∧ Reaches Queried.idle page grown ∧
    (((serve Queried.idle (.xpath "descendant::*" (some part))).run grown).run ()).1.1 =
      Except.ok (grown.handles [2, 3, 4]) ∧
    grown.dom.treeOf 1 = [1, 2, 4, 3] ∧ ¬ grown.dom.InDocumentOrder [2, 3, 4] := by
  have acts : Acts Queried.idle := fun _ _ _ _ _ => ⟨0, .start⟩
  have reaches : Reaches Queried.idle page grown :=
    (Reaches.start.step (.outside (.remove part)) trivial ()).step grow trivial ()
  have answered : (((serve Queried.idle (.xpath "descendant::*" (some part))).run
      grown).run ()).1.1 = Except.ok (grown.handles [2, 3, 4]) := by
    rw [serve_reading Queried.idle rfl]
    exact answer_xpath_from (by decide +kernel) select_inside
  have tree : grown.dom.treeOf 1 = [1, 2, 4, 3] := by decide +kernel
  obtain ⟨c, found, starts, given, -, -, -, order⟩ :=
    xpath_finds Queried.idle acts _ _ grown reaches "descendant::*" (some part) () _ answered
  obtain rfl : 1 = c := Except.ok.inj (Eq.trans (by decide +kernel) starts)
  obtain rfl : [2, 3, 4] = found :=
    List.map_injective_iff.mpr (fun _ _ => handle_injective) given
  refine ⟨acts, reaches, answered, tree, fun inOrder => ?_⟩
  obtain attached | made := order.mp inOrder
  · have f := (reaches.sane acts (sane_ofMarkup _ _)).forest
    exact absurd ((f.isConnected_iff 1).mpr attached) (by decide +kernel)
  · rw [tree] at made
    exact absurd made (by decide)

end Regrown

end BrowserScript.Sandbox
