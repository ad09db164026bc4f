import BrowserScript.Proofs.Sandbox.Handles

/-!
What a click does by itself, after the listeners. The node is looked up before they act, by the
handle of the target, and is used after, by its number: in the same document that is the target,
in a new one it is whatever has the number there. Main statement: `click_after_listeners`.
-/

namespace BrowserScript

open Dom (NodeId)

namespace Sandbox

open Page (Handle EventTarget Event EventKind)

/-! ## What changes -/

namespace Document

variable {doc : Document} {n : NodeId}

/-- An input of that type; without a type it is a text field. -/
def IsInput (d : Dom) (n : NodeId) (type : String) : Prop :=
  d.tag? n = some "input" ∧ Text.asciiLowered ((d.attribute? n "type").getD "text") = type

/-- The other inputs of the name of an element. -/
def rivals (d : Dom) (n : NodeId) : List NodeId :=
  (((d.attribute? n "name").map (inputsNamed d)).getD []).filter (· ≠ n)

/-- The elements that a click on a node checks or unchecks. -/
def Marks (d : Dom) (n k : NodeId) : Prop :=
  IsInput d n "checkbox" ∧ k = n ∨ IsInput d n "radio" ∧ (k = n ∨ k ∈ rivals d n)

/-- A click on the node changes nothing: it is no box, a radio button only if it is the one that is
checked, and a link only if it is empty or leads to where the document is. -/
structure Idle (doc : Document) (n : NodeId) : Prop where
  box : ¬ IsInput doc.dom n "checkbox"
  radio : IsInput doc.dom n "radio" → doc.dom.property? n "checked" = some (.bool true) ∧
    ∀ o ∈ rivals doc.dom n, doc.dom.property? o "checked" = some (.bool false)
  link : doc.dom.tag? n = some "a" →
    ∀ href, doc.property? n "href" = some (.text href) → href = "" ∨ href = doc.url

theorem checkRadio_eq (d : Dom) (n : NodeId) :
    checkRadio d n = (rivals d n).foldl (fun d o => d.setProperty o "checked" (.bool false))
      (d.setProperty n "checked" (.bool true)) :=
  d.setProperties_setProperty _ n "checked" _ _

theorem isElement_of_tag {d : Dom} {tag : String} (own : d.tag? n = some tag) : d.isElement n := by
  obtain ⟨e, found, -⟩ := Option.map_eq_some_iff.mp own
  exact Option.isSome_iff_exists.mpr ⟨e, found⟩

theorem isElement_of_mem_rivals {d : Dom} {o : NodeId} (mem : o ∈ rivals d n) :
    d.isElement o ∧ o ≠ n := by
  obtain ⟨listed, apart⟩ := List.mem_filter.mp mem
  refine ⟨?_, by simpa using apart⟩
  cases named : d.attribute? n "name" with
  | none =>
      rw [named] at listed
      cases listed
  | some name =>
      rw [named] at listed
      exact (List.mem_filter.mp (List.mem_filter.mp listed).1).2

theorem checkRadio_eq_self_iff {d : Dom} (element : d.isElement n) :
    checkRadio d n = d ↔ d.property? n "checked" = some (.bool true) ∧
      ∀ o ∈ rivals d n, d.property? o "checked" = some (.bool false) := by
  constructor
  · intro same
    refine ⟨?_, fun o mem => ?_⟩
    · rw [← same, checkRadio]
      refine Dom.property?_setProperty_self ?_
      rwa [(d.agrees_setProperties "checked" _ fun _ => .bool false).isElement n]
    · obtain ⟨rival, -⟩ := isElement_of_mem_rivals mem
      rw [← same, checkRadio_eq]
      exact Dom.property?_setProperties_of_mem (by rwa [Dom.isElement_setProperty]) mem
  · rintro ⟨own, others⟩
    rw [checkRadio_eq, Dom.setProperty_eq_self own, Dom.setProperties_eq_self others]

/-- Whether an element shows a mark. -/
def isMarked (doc : Document) (n : NodeId) : Bool :=
  (doc.property? n "checked").any Page.PropertyValue.isTruthy

/-- What a click on a node makes of a document. -/
inductive Clicked (doc : Document) (n : NodeId) : Document → Prop
  | box (box : IsInput doc.dom n "checkbox") :
      Clicked doc n (doc.modifyDom fun d => d.setProperty n "checked" (.bool !doc.isMarked n))
  | radio (radio : IsInput doc.dom n "radio") :
      Clicked doc n (doc.modifyDom fun d => checkRadio d n)
  | link (link : doc.dom.tag? n = some "a") (href : String)
      (leads : doc.property? n "href" = some (.text href)) (away : href ≠ "") :
      Clicked doc n { doc with url := href }
  | none (box : ¬ IsInput doc.dom n "checkbox") (radio : ¬ IsInput doc.dom n "radio")
      (link : doc.dom.tag? n = some "a" →
        ∀ href, doc.property? n "href" = some (.text href) → href = "") : Clicked doc n doc

/-- A box gets the other mark. -/
theorem turned_of_box (box : IsInput doc.dom n "checkbox") :
    doc.dom.property? n "checked" ≠ some (.bool !doc.isMarked n) := by
  intro own
  have marked := property?_marked own
  rw [box.1] at marked
  have same := congrArg (Option.any Page.PropertyValue.isTruthy) marked
  exact (Bool.eq_not_self _).mp same

theorem clicked_activate (doc : Document) (n : NodeId) : Clicked doc n (doc.activate n) := by
  unfold activate
  split
  · rename_i tag
    split
    · rename_i type
      exact .box ⟨tag, type⟩
    · rename_i type
      exact .radio ⟨tag, type⟩
    · rename_i box radio
      refine .none (fun own => box own.2) (fun own => radio own.2) fun link => ?_
      exact absurd (tag.symm.trans link) (by decide)
  · rename_i tag
    have input (type : String) : ¬ IsInput doc.dom n type := fun own =>
      absurd (tag.symm.trans own.1) (by decide)
    split
    · rename_i href leads
      split_ifs with empty
      · refine .none (input _) (input _) fun _ other leads' => ?_
        obtain rfl : href = other := by simpa using leads.symm.trans leads'
        exact eq_of_beq empty
      · exact .link tag href leads (by simpa using empty)
    · rename_i other
      exact .none (input _) (input _) fun _ href leads => absurd leads (other href)
  · rename_i input link
    exact .none (fun own => input own.1) (fun own => input own.1) fun own => absurd own link

theorem modifyDom_eq_self_iff {f : Dom → Dom} : doc.modifyDom f = doc ↔ f doc.dom = doc.dom :=
  ⟨fun same => congrArg Document.dom same, fun same => by rw [modifyDom, same]⟩

theorem not_isInput_of_link (link : doc.dom.tag? n = some "a") (type : String) :
    ¬ IsInput doc.dom n type :=
  fun own => absurd (link.symm.trans own.1) (by decide)

theorem IsInput.other {d : Dom} {type other : String} (own : IsInput d n type)
    (apart : type ≠ other) : ¬ IsInput d n other :=
  fun also => apart (own.2.symm.trans also.2)

theorem activate_eq_self_iff : doc.activate n = doc ↔ doc.Idle n := by
  have clicked := doc.clicked_activate n
  generalize doc.activate n = doc' at clicked
  cases clicked with
  | box box =>
      refine iff_of_false (fun same => turned_of_box box ?_) fun idle => idle.box box
      rw [modifyDom_eq_self_iff] at same
      rw [← same]
      exact Dom.property?_setProperty_self (isElement_of_tag box.1)
  | radio radio =>
      rw [modifyDom_eq_self_iff, checkRadio_eq_self_iff (isElement_of_tag radio.1)]
      refine ⟨fun settled => ⟨radio.other (by decide), fun _ => settled, fun link => ?_⟩,
        fun idle => idle.radio radio⟩
      exact absurd radio (not_isInput_of_link link _)
  | link link href leads away =>
      have input := not_isInput_of_link link
      constructor
      · intro same
        refine ⟨input _, fun radio => absurd radio (input _), fun _ other leads' => .inr ?_⟩
        obtain rfl : href = other := by simpa using leads.symm.trans leads'
        exact congrArg Document.url same
      · intro idle
        obtain rfl := (idle.link link href leads).resolve_left away
        rfl
  | none box radio link =>
      exact iff_of_true rfl ⟨box, fun own => absurd own radio,
        fun own href leads => .inl (link own href leads)⟩

/-- Nothing but marks that a click on a node sets differs, and the address if the node is a link. -/
structure Touched (doc : Document) (n : NodeId) (doc' : Document) : Prop where
  elements : Dom.Agrees Dom.Everywhere (fun k name => name = "checked" → ¬ Marks doc.dom n k)
    (fun _ => True) doc.dom doc'.dom
  url : doc.dom.tag? n ≠ some "a" → doc'.url = doc.url
  rest : doc' = { doc with dom := doc'.dom, url := doc'.url }

theorem Clicked.touched {doc' : Document} (clicked : Clicked doc n doc') : doc.Touched n doc' := by
  cases clicked with
  | box box =>
      refine ⟨(Dom.agrees_setProperty ..).mono ?_, fun _ => rfl, rfl⟩
      exact fun k name free own marked => free marked (.inl ⟨box, own⟩)
  | radio radio =>
      refine ⟨?_, fun _ => rfl, rfl⟩
      dsimp only [modifyDom]
      rw [checkRadio_eq]
      refine ((Dom.agrees_setProperty ..).mono ?_).trans
        ((Dom.agrees_setProperties_of_mem ..).mono ?_)
      · exact fun k name free own marked => free marked (.inr ⟨radio, .inl own⟩)
      · exact fun k name free mem marked => free marked (.inr ⟨radio, .inr mem⟩)
  | link link => exact ⟨.refl _, fun other => absurd link other, rfl⟩
  | none => exact ⟨.refl _, fun _ => rfl, rfl⟩

end Document

/-! ## Events -/

variable {L σ : Type} {s : Sandbox L} {el : Handle} {n : NodeId}

theorem dispatch_live (react : React L (StateM σ)) (live : s.document.resolve el = .ok n)
    (event : Event) (w : σ) :
    (((dispatch react (.element el) event).run s).run w).1.2 =
      if event.kind = .click then (s.announced react (.element el) event w).activate n
      else s.announced react (.element el) event w := by
  have clicked : s.clickedNode (.element el) event =
      if event.kind = .click then some n else none := by
    rw [clickedNode, live]
    rfl
  rw [dispatch_eq, clicked]
  split_ifs <;> rfl

theorem announced_history {react : React L (StateM σ)} (acts : Acts react) (target : EventTarget)
    (event : Event) (s : Sandbox L) (w : σ) :
    ∃ k, History s k (s.announced react target event w) :=
  announced_leads chains_history react target event
    (fun _ => history_of_deed (.keep target event) trivial)
    (notify_leads chains_history fun l => acts l target event) s w

/-- When all listeners have acted, a click acts on the node that the target was before they did. As
long as its document is there, that is the target: its mark changes, or as a radio button also those
of its rivals, or the address if it is a link. In a document that a listener has loaded it is the
node with the number of the target, and nothing changes exactly when the node is one on which a
click does nothing. -/
theorem click_after_listeners (react : React L (StateM σ)) (acts : Acts react)
    (url markup : String) (s : Sandbox L) (reaches : Reaches react (ofMarkup url markup) s)
    (el : Handle) (n : NodeId) (live : s.document.resolve el = .ok n) (event : Event) (w : σ) :
    let heard := s.announced react (.element el) event w
    let after := (Operation.request (.dispatch (.element el) event)).after react s w
    (event.kind ≠ .click → after = heard) ∧
    (event.kind = .click →
      after = { heard with document := after.document } ∧
      heard.document.Clicked n after.document ∧
      s.document.generation ≤ heard.document.generation ∧
      (heard.document.generation = s.document.generation →
        heard.document.resolve el = .ok n ∧ heard.document.Touched n after.document) ∧
      (s.document.generation < heard.document.generation →
        heard.document.resolve el = .error (.staleElement el.id) ∧
        (after = heard ↔ heard.document.Idle n))) := by
  intro heard after
  obtain ⟨k, history⟩ := announced_history acts (.element el) event s w
  have sane := reaches.sane acts (sane_ofMarkup url markup)
  have loads : heard.document.generation = s.document.generation + k := history.generation sane
  have done : after = if event.kind = .click then heard.activate n else heard :=
    dispatch_live react live event w
  refine ⟨fun other => by rw [done, if_neg other], fun click => ?_⟩
  rw [if_pos click] at done
  have acted : after.document = heard.document.activate n := congrArg Sandbox.document done
  have clicked : heard.document.Clicked n after.document := by
    rw [acted]
    exact heard.document.clicked_activate n
  refine ⟨?_, clicked, by omega, fun same => ⟨?_, clicked.touched⟩, fun more => ⟨?_, ?_⟩⟩
  · rw [acted, done]
    rfl
  · have edited := history.edited sane (by omega)
    exact (edited.stands (stands_of_resolve live)).resolve (lt_of_resolve live)
  · refine stale_of_generation ?_
    rw [(generation_of_resolve live).1]
    omega
  · rw [← Document.activate_eq_self_iff, ← acted]
    refine ⟨congrArg Sandbox.document, fun same => ?_⟩
    rw [done, activate, ← acted, same]

/-- Listeners that all do the same deed. -/
theorem acts_modify {f : Sandbox L → Sandbox L} (each : ∀ s, ∃ k, History s k (f s)) :
    Acts (fun _ _ _ => modify f : React L (StateM σ)) :=
  fun _ _ _ s _ => each s

namespace Led

/-! A click on a box leads to another document, which has a box in the same place. -/

def markup : String := "<input type='checkbox'>"

def visit : Deed Unit := .navigate "/next"

def follow : React Unit (StateM Unit) := fun _ _ _ => modify fun s => s.orSame (visit.apply s)

theorem acts_follow : Acts follow := acts_modify fun _ => history_of_deed visit trivial

def start : Sandbox Unit := .ofMarkup "https://shop.example/" markup

def box : Handle := start.handle 1

def route : Deed Unit := .addRoute "https://shop.example/next" markup

def wait : Deed Unit := .listen (.element box) .click ()

def page : Sandbox Unit := start.orSame (route.apply start)

def ready : Sandbox Unit := page.orSame (wait.apply page)

def click : Operation Unit := .request (.dispatch (.element box) (.mouse .click))

def heard : Sandbox Unit := ready.announced follow (.element box) (.mouse .click) ()

def clicked : Sandbox Unit := click.after follow ready ()

/-- The click marks the box of the new document. -/
theorem box_of_next_marked :
    Acts follow ∧ Reaches follow start ready ∧ ready.document.resolve box = .ok 1 ∧
    heard.document.resolve box = .error (.staleElement 1) ∧ clicked ≠ heard ∧
    heard.document.isMarked 1 = false ∧ clicked.document.isMarked 1 = true := by
  have reaches : Reaches follow start ready :=
    (Reaches.start.step (.outside route) trivial ()).step (.outside wait) trivial ()
  have live : ready.document.resolve box = .ok 1 := by decide +kernel
  obtain ⟨-, clicks⟩ := click_after_listeners follow acts_follow _ _ ready reaches box 1 live
    (.mouse .click) ()
  obtain ⟨-, -, -, -, loaded⟩ := clicks rfl
  obtain ⟨stale, same⟩ := loaded (by decide +kernel)
  have type : Document.IsInput heard.dom 1 "checkbox" := ⟨by decide +kernel, by decide +kernel⟩
  exact ⟨acts_follow, reaches, live, stale, fun eq => (same.mp eq).box type, by decide +kernel,
    by decide +kernel⟩

end Led

end Sandbox

end BrowserScript
