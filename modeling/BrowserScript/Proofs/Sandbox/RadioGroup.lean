import BrowserScript.Proofs.Sandbox.Activation
import BrowserScript.Proofs.Sandbox.Choice

/-!
Clicking a radio button of a sandbox that nobody listens to. It is marked, and all other inputs of
its name lose their mark: other radio buttons, and boxes and fields of that name too. Nothing else
changes. Main statement: `click_radio`.
-/

namespace BrowserScript.Sandbox

open Dom (NodeId Agrees Everywhere)
open Page (Handle EventTarget Event)

namespace Document

variable {d : Dom} {doc : Document} {n o : NodeId} {name key : String}

/-- An input of the document that has the name, of whatever type. -/
structure Member (d : Dom) (name : String) (o : NodeId) : Prop where
  inside : d.isConnected o
  input : d.tag? o = some "input"
  named : d.attribute? o "name" = some name

theorem mem_inputsNamed_iff (f : d.Forest) : o ∈ inputsNamed d name ↔ Member d name o := by
  have below (input : d.tag? o = some "input") :
      o ∈ d.descendants Dom.root ↔ d.isConnected o := by
    have inner : o ≠ Dom.root := by
      rintro rfl
      have element := isElement_of_tag input
      rw [f.not_isElement_root] at element
      cases element
    rw [f.isConnected_iff, f.connected_iff, or_iff_right inner]
  simp only [inputsNamed, Dom.descendantElements, List.mem_filter, Bool.and_eq_true, beq_iff_eq]
  constructor
  · rintro ⟨⟨mem, -⟩, input, named⟩
    exact ⟨(below input).mp mem, input, named⟩
  · intro member
    exact ⟨⟨(below member.input).mpr member.inside, isElement_of_tag member.input⟩, member.input,
      member.named⟩

theorem mem_rivals_iff (f : d.Forest) (named : d.attribute? n "name" = some name) :
    o ∈ rivals d n ↔ o ≠ n ∧ Member d name o := by
  rw [rivals, named, Option.map_some, Option.getD_some, List.mem_filter, decide_eq_true_iff,
    mem_inputsNamed_iff f, and_comm]

theorem agrees_rivals (d : Dom) (n : NodeId) :
    Agrees Everywhere (fun k key => key = "checked" → k ≠ n ∧ k ∉ rivals d n) (fun _ => True) d
      (checkRadio d n) := by
  rw [checkRadio_eq]
  refine ((d.agrees_setProperty n "checked" _).mono ?_).trans
    ((Dom.agrees_setProperties_of_mem _ "checked" (rivals d n) _).mono ?_)
  · exact fun k key free own same => (free same).1 own
  · exact fun k key free mem same => (free same).2 mem

theorem property?_checkRadio_self (element : d.isElement n) :
    (checkRadio d n).property? n "checked" = some (.bool true) := by
  refine Dom.property?_setProperty_self ?_
  rwa [(d.agrees_setProperties "checked" _ fun _ => .bool false).isElement n]

theorem property?_checkRadio_rival (rival : o ∈ rivals d n) :
    (checkRadio d n).property? o "checked" = some (.bool false) := by
  rw [checkRadio_eq]
  exact Dom.property?_setProperties_of_mem
    (by rw [Dom.isElement_setProperty]; exact (isElement_of_mem_rivals rival).1) rival

/-- A mark that was set is what an input shows. -/
theorem property?_input {value : Page.PropertyValue} (input : doc.dom.tag? o = some "input")
    (own : doc.dom.property? o "checked" = some value) :
    doc.property? o "checked" = some value := by
  rw [property?_marked own, input, Option.map_some]

theorem activate_radio (radio : IsInput doc.dom n "radio") :
    doc.activate n = doc.modifyDom fun d => checkRadio d n := by
  obtain ⟨input, type⟩ := radio
  simp only [activate, input, type]

end Document

open Document (IsInput Member)

variable {L σ : Type}

/-- After any operations, without listeners, a click on a radio button with a name marks it and
takes the mark of every other input of the name in the document; no other property of any element
changes, and nothing else but that the event is kept. Inputs of the name that are no radio buttons
lose their mark as well, so they stay as they are only where none of them shows one. -/
theorem click_radio (react : React L (StateM σ)) (acts : Acts react) (url markup : String)
    (s : Sandbox L) (reaches : Reaches react (ofMarkup url markup) s) (alone : s.listeners = [])
    (el : Handle) (n : NodeId) (found : s.document.resolve el = .ok n)
    (radio : IsInput s.dom n "radio") (name : String)
    (named : s.dom.attribute? n "name" = some name) (event : Event) (click : event.kind = .click)
    (w : σ) :
    ∃ s', ((dispatch react (.element el) event).run s).run w = ((.ok (), s'), w) ∧
      s' = { s with
        document := { s.document with dom := s'.dom }
        dispatched := (.element el, event) :: s.dispatched } ∧
      s'.document.property? n "checked" = some (.bool true) ∧
      (∀ o ≠ n, Member s.dom name o →
        s'.document.property? o "checked" = some (.bool false)) ∧
      (∀ o key, (key = "checked" → o ≠ n ∧ ¬ Member s.dom name o) →
        s'.document.property? o key = s.document.property? o key) ∧
      ((∀ o ≠ n, ¬ (Member s.dom name o ∧ IsInput s.dom o "radio") →
          s'.document.property? o "checked" = s.document.property? o "checked") ↔
        ∀ o, Member s.dom name o → ¬ IsInput s.dom o "radio" →
          s.document.property? o "checked" = some (.bool false)) := by
  have f := (reaches.sane acts (sane_ofMarkup url markup)).forest
  let doc : Document := { s.document with dom := Document.checkRadio s.dom n }
  have acted : s.document.activate n = doc := Document.activate_radio radio
  have same := Document.agrees_rivals s.dom n
  have unmarked : ∀ o ≠ n, Member s.dom name o →
      doc.property? o "checked" = some (.bool false) := by
    intro o apart member
    have rival := (Document.mem_rivals_iff f named).mpr ⟨apart, member⟩
    exact Document.property?_input ((same.tag o).trans member.input)
      (Document.property?_checkRadio_rival rival)
  have kept : ∀ o key, (key = "checked" → o ≠ n ∧ ¬ Member s.dom name o) →
      doc.property? o key = s.document.property? o key := by
    intro o key free
    refine property?_same same rfl (fun other mem checked => ?_) fun _ _ _ _ same => ?_
    · obtain rfl | rfl := List.mem_pair.mp mem
      · rw [Document.mem_rivals_iff f named]
        exact ⟨(free checked).1, fun rival => (free checked).2 rival.2⟩
      · exact absurd checked (by decide)
    · exact absurd same (by decide)
  let after : Sandbox L :=
    { s with document := doc, dispatched := (.element el, event) :: s.dispatched }
  have ended : { s with dispatched := (.element el, event) :: s.dispatched }.activate n = after :=
    congrArg (fun document => { after with document }) acted
  refine ⟨after, ?_, rfl, ?_, unmarked, kept, ?_⟩
  · rw [dispatch_unheard alone found, if_pos click, ended]
    rfl
  · exact Document.property?_input ((same.tag n).trans radio.1)
      (Document.property?_checkRadio_self (Document.isElement_of_tag radio.1))
  · constructor
    · intro stays o member other
      have apart : o ≠ n := fun own => other (own ▸ radio)
      rw [← stays o apart fun both => other both.2]
      exact unmarked o apart member
    · intro blank o apart outside
      by_cases member : Member s.dom name o
      · rw [blank o member fun own => outside ⟨member, own⟩]
        exact unmarked o apart member
      · exact kept o "checked" fun _ => ⟨apart, member⟩

namespace Grouped

/-! A marked box and a radio button of the same name. -/

def page : Sandbox Unit :=
  .ofMarkup "https://shop.example/"
    "<input type='checkbox' name='pay' checked><input type='radio' name='pay'>"

theorem box_unmarked :
    page.document.isMarked 1 ∧ Member page.dom "pay" 1 ∧
    ∃ s', ((dispatch Queried.idle (.element (page.handle 2)) (.mouse .click)).run page).run () =
        ((.ok (), s'), ()) ∧
      s'.document.property? 2 "checked" = some (.bool true) ∧
      s'.document.property? 1 "checked" = some (.bool false) := by
  have acts : Acts Queried.idle := fun _ _ _ _ _ => ⟨0, .start⟩
  have f := (sane_ofMarkup (L := Unit) "https://shop.example/" _ : page.Sane).forest
  have named : Document.inputsNamed page.dom "pay" = [1, 2] := by decide +kernel
  have members : ∀ o ∈ [1, 2], Member page.dom "pay" o := fun o mem =>
    (Document.mem_inputsNamed_iff f).mp (named ▸ mem)
  have box := members 1 (by decide)
  have button := members 2 (by decide)
  obtain ⟨s', ended, -, marked, unmarked, -, -⟩ :=
    click_radio Queried.idle acts _ _ page .start rfl (page.handle 2) 2 (by decide +kernel)
      ⟨button.input, by decide +kernel⟩ "pay" button.named (.mouse .click) rfl ()
  exact ⟨by decide +kernel, box, s', ended, marked, unmarked 1 (by decide) box⟩

end Grouped

end BrowserScript.Sandbox
