import BrowserScript.Proofs.Sandbox.Look

/-!
Whether the change that makes a condition true is told to those who follow the changes of a
document. A look that polls needs no telling. Of the others, each is told by a change that it
wants, save for what changes without a change record: addresses, boxes, properties that no
attribute stands for, what a click does by itself, and the document that gives way to another.
-/

namespace BrowserScript.Sandbox

open Prog
open Dom (NodeId Agrees Elsewhere Everywhere)
open Page (Handle EventTarget Event EventKind Change)
open Verification (propertyName)

variable {L : Type} {s s' s'' : Sandbox L} {p : Probe} {el : Handle} {n : NodeId}

/-- The element of a probe comes from this document or from an earlier one. -/
def Knows (s : Sandbox L) (p : Probe) : Prop :=
  ∀ el, p.element? = some el → el.id >>> 32 ≤ s.document.generation

/-- Followers hear of the change when it makes the probe true. -/
def Heard (p : Probe) (s s' : Sandbox L) : Prop :=
  ∃ more, s'.changes.toList = s.changes.toList ++ more ∧
    s.document.generation ≤ s'.document.generation ∧
    (s.Knows p → ¬ s.Satisfies p → s'.Satisfies p → ∃ c ∈ more, p.wants c)

namespace Heard

theorem refl (p : Probe) (s : Sandbox L) : Heard p s s :=
  ⟨[], (List.append_nil _).symm, Nat.le_refl _, fun _ unmet met => absurd met unmet⟩

theorem generation (step : Heard p s s') : s.document.generation ≤ s'.document.generation := by
  obtain ⟨-, -, generation, -⟩ := step
  exact generation

theorem knows (step : Heard p s s') (known : s.Knows p) : s'.Knows p :=
  fun el about => Nat.le_trans (known el about) step.generation

theorem trans (first : Heard p s s') (second : Heard p s' s'') : Heard p s s'' := by
  have later := first.knows
  obtain ⟨more, eq, generation, noticed⟩ := first
  obtain ⟨more', eq', generation', noticed'⟩ := second
  have all : s''.changes.toList = s.changes.toList ++ (more ++ more') := by
    rw [eq', eq, List.append_assoc]
  refine ⟨more ++ more', all, Nat.le_trans generation generation', fun known unmet met => ?_⟩
  by_cases between : s'.Satisfies p
  · obtain ⟨c, mem, wanted⟩ := noticed known unmet between
    exact ⟨c, List.mem_append_left _ mem, wanted⟩
  · obtain ⟨c, mem, wanted⟩ := noticed' (later known) between met
    exact ⟨c, List.mem_append_right _ mem, wanted⟩

/-- Nothing need be told where nothing comes true. -/
theorem of_quiet (changes : s'.changes = s.changes)
    (generation : s.document.generation ≤ s'.document.generation)
    (kept : s.Knows p → s'.Satisfies p → s.Satisfies p) : Heard p s s' :=
  ⟨[], by rw [changes, List.append_nil], generation,
    fun known unmet met => absurd (kept known met) unmet⟩

theorem of_change {c : Change} (changes : s'.changes = s.changes.push c)
    (generation : s'.document.generation = s.document.generation)
    (heard : p.wants c ∨ (s'.Satisfies p → s.Satisfies p)) : Heard p s s' := by
  have all : s'.changes.toList = s.changes.toList ++ [c] := by rw [changes, Array.toList_push]
  refine ⟨[c], all, Nat.le_of_eq generation.symm, fun _ unmet met => ?_⟩
  obtain wanted | kept := heard
  · exact ⟨c, List.mem_singleton_self c, wanted⟩
  · exact absurd (kept met) unmet

end Heard

theorem satisfies_of_look (same : s'.look p = s.look p) (met : s'.Satisfies p) : s.Satisfies p := by
  obtain ⟨found, met⟩ := met
  exact ⟨found, same.symm.trans met⟩

theorem wants_childList (still : p.polls = false) (target : Handle) :
    p.wants ⟨.childList, target, none⟩ := by
  match p with
  | .page .. => cases still
  | .text .. | .attribute .. | .state .. => rfl

/-! ## Single changes -/

/-- What is done to an element is done to the node it names. -/
theorem resolved {β : Type} {g : NodeId → Except Page.Error β} {x : β}
    (done : (do g (← s.document.resolve el)) = .ok x) :
    ∃ n, s.document.resolve el = .ok n ∧ g n = .ok x := by
  cases found : s.document.resolve el with
  | error e =>
      rw [found] at done
      cases done
  | ok n =>
      rw [found] at done
      exact ⟨n, rfl, done⟩

theorem setText_heard (still : p.polls = false) {text : String}
    (done : s.setText el text = .ok s') : Heard p s s' := by
  obtain ⟨n, -, done⟩ := resolved done
  obtain rfl := Except.ok.inj done
  exact .of_change rfl rfl (.inl (wants_childList still el))

/-- A change of an attribute that the probe does not want leaves it alone. -/
theorem needs_of_unwanted {name : String} {k : NodeId} {address : Prop} {kept : Handle}
    (unwanted : ¬ p.wants ⟨.attributes, el, some name⟩) (still : p.polls = false)
    (about : p.element? = some kept) (other : kept = el ∨ k ≠ n) (so : address) :
    Needs (Elsewhere n name) Everywhere (fun _ => True) address k p := by
  have free {other : String} (listed : other ∈ Probe.stateAttributes)
      (unlisted : ¬ name ∈ Probe.stateAttributes) : other ≠ name := by
    rintro rfl
    exact unlisted listed
  match p with
  | .page .. => cases still
  | .text .. => exact absurd rfl unwanted
  | .state _ wanted =>
      have unlisted : name ∉ Probe.stateAttributes := by simpa [Probe.wants] using unwanted
      cases wanted with
      | visible | hidden =>
          refine ⟨fun m other mem _ => free ?_ unlisted, trivial⟩
          revert mem
          revert other
          decide
      | enabled | disabled => exact ⟨fun _ => free (by decide) unlisted, trivial⟩
      | checked => exact ⟨fun _ => free (by decide) unlisted, trivial⟩
  | .attribute own subject .. =>
      obtain rfl := Option.some.inj about
      refine ⟨fun here same => unwanted ?_, trivial, fun _ => so⟩
      obtain rfl | apart := other
      · simp [Probe.wants, same]
      · exact absurd here apart

theorem apart_or_handle {doc : Document} {k : NodeId} (found : doc.resolve el = .ok k)
    (n : NodeId) : el = doc.handle n ∨ k ≠ n := by
  by_cases here : k = n
  · subst here
    exact .inl (handle_of_resolve found)
  · exact .inr here

/-- A change of one attribute of an element. -/
theorem attribute_heard (still : p.polls = false) {name : String} {f : Dom → Dom}
    (found : s.document.resolve el = .ok n)
    (same : Agrees (Elsewhere n name) Everywhere (fun _ => True) s.dom (f s.dom)) :
    Heard p s ((s.modifyDom f).emit ⟨.attributes, el, some name⟩) := by
  obtain rfl := handle_of_resolve found
  refine .of_change rfl rfl ?_
  by_cases wanted : p.wants ⟨.attributes, s.document.handle n, some name⟩
  · exact .inl wanted
  · refine .inr (satisfies_of_look (look_same rfl same still fun kept about k found' => ?_))
    exact needs_of_unwanted wanted still about (apart_or_handle found' n) rfl

theorem setAttribute_heard (still : p.polls = false) {name value : String}
    (done : s.setAttribute el name value = .ok s') : Heard p s s' := by
  obtain ⟨n, found, done⟩ := resolved done
  obtain rfl := Except.ok.inj done
  exact attribute_heard still found (Dom.agrees_setAttribute ..)

theorem removeAttribute_heard (still : p.polls = false) {name : String}
    (done : s.removeAttribute el name = .ok s') : Heard p s s' := by
  obtain ⟨n, found, done⟩ := resolved done
  dsimp only at done
  split at done
  · obtain rfl := Except.ok.inj done
    exact attribute_heard still found (Dom.agrees_removeAttribute ..)
  · obtain rfl := Except.ok.inj done
    exact .refl p s

theorem appendMarkup_heard (still : p.polls = false) {markup : String} {added : List Handle}
    (done : s.appendMarkup el markup = .ok (added, s')) : Heard p s s' := by
  obtain ⟨n, -, done⟩ := resolved done
  obtain ⟨-, rfl⟩ := Prod.mk.inj (Except.ok.inj done)
  exact .of_change rfl rfl (.inl (wants_childList still el))

theorem remove_heard (still : p.polls = false) (done : s.remove el = .ok s') : Heard p s s' := by
  obtain ⟨n, -, done⟩ := resolved done
  split at done
  · obtain rfl := Except.ok.inj done
    exact .refl p s
  · obtain rfl := Except.ok.inj done
    exact .of_change rfl rfl (.inl (wants_childList still _))

theorem setTitle_heard (still : p.polls = false) (title : String) :
    Heard p s (s.setTitle title) :=
  .of_change rfl rfl (.inl (wants_childList still _))

/-! ## Changes without a record -/

/-- Whether a probe may read a link, which depends on the address of the page. -/
def readsAddress : Probe → Bool
  | .attribute _ subject .. => subject = .href || subject = .src
  | _ => false

/-- Whether a probe depends on the box of an element. -/
def readsBox (el : Handle) : Probe → Bool
  | .text own .. => own = el
  | .state (some own) .visible | .state (some own) .hidden => own = el
  | _ => false

/-- Whether a probe reads a property of an element. -/
def readsProperty (el : Handle) (name : String) : Probe → Bool
  | .attribute own subject .. => own = el && propertyName subject = name
  | .state (some own) .checked => own = el && name = "checked"
  | _ => false

/-- Properties that stand for attributes or for the content. -/
def reflected : List String :=
  ["disabled", "hidden", "required", "id", "title", "name", "placeholder", "alt", "className",
    "textContent"]

theorem everywhere_styled : ∀ n, ∀ name ∈ Dom.styling, Everywhere n name :=
  fun _ _ _ => trivial

/-- What is read without polling is no mark that a click sets. -/
theorem unmarked {subject : Subject} {op : Operator} {expected locator : String}
    (still : (Probe.attribute el subject op expected locator).polls = false) :
    propertyName subject ≠ "checked" ∧ propertyName subject ≠ "selected" := by
  obtain ⟨-, unchecked, unselected⟩ := polls_attribute still
  cases subject
  case checked => exact absurd rfl unchecked
  case selected => exact absurd rfl unselected
  all_goals decide

section Unread

variable {Q : NodeId → String → Prop} {B : NodeId → Prop}

/-- Where nodes and attributes stay, only boxes, properties and links can read otherwise. -/
theorem look_unread (still : p.polls = false)
    (generation : s'.document.generation = s.document.generation)
    (same : Agrees Everywhere Q B s.dom s'.dom)
    (box : ∀ el n, s.document.resolve el = .ok n → readsBox el p → B n)
    (property : ∀ el n name, s.document.resolve el = .ok n →
      readsProperty el name p ∨ name = "disabled" → name ≠ "selected" → Q n name)
    (address : readsAddress p → s'.document.url = s.document.url) : s'.look p = s.look p := by
  refine look_same generation same still fun el about n found => ?_
  have box := box el n found
  have property := property el n
  match p with
  | .page .. => cases still
  | .text own .. =>
      obtain rfl := Option.some.inj about
      exact ⟨everywhere_styled, box (by simp [readsBox])⟩
  | .attribute own subject .. =>
      obtain rfl := Option.some.inj about
      have own := property _ found (.inl (by simp [readsProperty])) (unmarked still).2
      exact ⟨trivial, own, fun linked => address (by simpa [readsAddress] using linked)⟩
  | .state _ wanted =>
      obtain rfl : _ = some el := about
      cases wanted with
      | visible | hidden => exact ⟨everywhere_styled, box (by simp [readsBox])⟩
      | enabled | disabled => exact ⟨trivial, property _ found (.inr rfl) (by decide)⟩
      | checked =>
          exact ⟨trivial, property _ found (.inl (by simp [readsProperty])) (by decide)⟩

theorem unread_heard (still : p.polls = false) (changes : s'.changes = s.changes)
    (generation : s'.document.generation = s.document.generation)
    (same : Agrees Everywhere Q B s.dom s'.dom)
    (box : ∀ el n, s.document.resolve el = .ok n → readsBox el p → B n)
    (property : ∀ el n name, s.document.resolve el = .ok n →
      readsProperty el name p ∨ name = "disabled" → name ≠ "selected" → Q n name)
    (address : readsAddress p → s'.document.url = s.document.url) : Heard p s s' :=
  .of_quiet changes (Nat.le_of_eq generation.symm) fun _ =>
    satisfies_of_look (look_unread still generation same box property address)

end Unread

theorem setUrl_heard (still : p.polls = false) (free : readsAddress p = false) (url : String) :
    Heard p s (s.setUrl url) := by
  have same : Agrees Everywhere Everywhere (fun _ => True) s.dom s.dom := .refl s.dom
  refine unread_heard still rfl rfl same ?_ ?_ ?_
  · exact fun _ _ _ _ => trivial
  · exact fun _ _ _ _ _ _ => trivial
  · intro read
    simp [free] at read

theorem setSize_heard (still : p.polls = false) (free : readsBox el p = false)
    {width height : Float} (done : s.setSize el width height = .ok s') : Heard p s s' := by
  obtain ⟨n, found, done⟩ := resolved done
  obtain rfl := Except.ok.inj done
  obtain rfl := handle_of_resolve found
  refine unread_heard still rfl rfl (Dom.agrees_setSize ..) ?_ ?_ fun _ => rfl
  · intro own k found' read
    obtain rfl | apart := apart_or_handle found' n
    · simp [free] at read
    · exact apart
  · exact fun _ _ _ _ _ _ => trivial

/-- A property that is set and stands for nothing else. -/
theorem property_heard (still : p.polls = false) {name : String} {f : Dom → Dom}
    (own : name ≠ "disabled") (free : readsProperty (s.document.handle n) name p = false)
    (same : Agrees Everywhere (fun k other => other ≠ "selected" ∧ Elsewhere n name k other)
      (fun _ => True) s.dom (f s.dom)) : Heard p s (s.modifyDom f) := by
  refine unread_heard still rfl rfl same ?_ ?_ fun _ => rfl
  · exact fun _ _ _ _ => trivial
  · intro el k other found read unselected
    refine ⟨unselected, fun here named => ?_⟩
    subst here named
    obtain rfl := handle_of_resolve found
    obtain read | rfl := read
    · simp [free] at read
    · exact own rfl

theorem agrees_putProperty (d : Dom) (n : NodeId) (name : String) (value : Page.PropertyValue) :
    Agrees Everywhere (fun k other => other ≠ "selected" ∧ Elsewhere n name k other)
      (fun _ => True) d (Document.putProperty d n name value) := by
  unfold Document.putProperty
  split
  · exact (Dom.agrees_setProperties ..).mono fun _ _ so => so.1
  · exact (Dom.agrees_setProperty ..).mono fun _ _ so => so.2

theorem setProperty_own {name : String} (own : name ∉ reflected) (value : Page.PropertyValue) :
    s.setProperty el name value = (do
      let n ← s.document.resolve el
      return s.modifyDom fun d => Document.putProperty d n name value) := by
  unfold Sandbox.setProperty
  split
  case h_11 => rfl
  all_goals exact absurd (by decide) own

/-- A property is an attribute, the content, or only itself. -/
theorem setProperty_cases (s : Sandbox L) (el : Handle) (name : String)
    (value : Page.PropertyValue) :
    (∃ name' value', s.setProperty el name value = s.setAttribute el name' value') ∨
    s.setProperty el name value = s.removeAttribute el name ∨
    s.setProperty el name value = s.setText el value.toText ∨
    name ∉ reflected ∧ s.setProperty el name value = (do
      let n ← s.document.resolve el
      return s.modifyDom fun d => Document.putProperty d n name value) := by
  by_cases own : name ∈ reflected
  · simp only [reflected, List.mem_cons, List.not_mem_nil, or_false] at own
    rcases own with rfl | rfl | rfl | rfl | rfl | rfl | rfl | rfl | rfl | rfl
    case inl | inr.inl | inr.inr.inl =>
      simp only [Sandbox.setProperty]
      split
      · exact .inl ⟨_, _, rfl⟩
      · exact .inr (.inl rfl)
    case inr.inr.inr.inr.inr.inr.inr.inr.inr => exact .inr (.inr (.inl rfl))
    all_goals exact .inl ⟨_, _, rfl⟩
  · exact .inr (.inr (.inr ⟨own, setProperty_own own value⟩))

theorem setProperty_heard (still : p.polls = false) {name : String} {value : Page.PropertyValue}
    (free : name ∉ reflected → readsProperty el name p = false)
    (done : s.setProperty el name value = .ok s') : Heard p s s' := by
  obtain ⟨_, _, same⟩ | same | same | ⟨own, same⟩ := setProperty_cases s el name value <;>
    rw [same] at done
  · exact setAttribute_heard still done
  · exact removeAttribute_heard still done
  · exact setText_heard still done
  · obtain ⟨n, found, done⟩ := resolved done
    obtain rfl := Except.ok.inj done
    obtain rfl := handle_of_resolve found
    refine property_heard still ?_ (free own) (agrees_putProperty s.dom n name value)
    rintro rfl
    exact own (by decide)

/-! ## Clicks -/

/-- What a click on a node does by itself. -/
def activate (s : Sandbox L) (n : NodeId) : Sandbox L :=
  { s with document := s.document.activate n }

theorem readsProperty_checked (still : p.polls = false) (free : p ≠ .state (some el) .checked) :
    readsProperty el "checked" p = false := by
  match p with
  | .page .. | .text .. => rfl
  | .attribute own subject .. => simp [readsProperty, (unmarked still).1]
  | .state none _ => rfl
  | .state (some own) wanted =>
      cases wanted with
      | visible | hidden | enabled | disabled => rfl
      | checked => simpa [readsProperty] using free

/-- A mark that was set is the property. -/
theorem property?_marked {doc : Document} {v : Page.PropertyValue}
    (own : doc.dom.property? n "checked" = some v) :
    doc.property? n "checked" = (doc.dom.tag? n).map fun _ => v := by
  unfold Document.property?
  simp only [own]
  cases doc.dom.tag? n with
  | none => rfl
  | some tag =>
      show (if tag == "input" then some v else some v) = some v
      exact ite_self (some v)

theorem agrees_checkRadio (d : Dom) (n : NodeId) :
    Agrees Everywhere (fun _ other => other ≠ "checked") (fun _ => True) d
      (Document.checkRadio d n) :=
  (Dom.agrees_setProperties ..).trans ((Dom.agrees_setProperty ..).mono fun _ _ so _ => so)

/-- Other radio buttons keep their mark or lose it. -/
theorem property?_checkRadio {d : Dom} {k : NodeId} (apart : k ≠ n) :
    (Document.checkRadio d n).property? k "checked" = d.property? k "checked" ∨
      (Document.checkRadio d n).property? k "checked" = some (.bool false) := by
  unfold Document.checkRadio
  obtain same | ⟨here, -⟩ := Dom.property?_setProperty _ n k "checked" (.bool true)
  · rw [same]
    exact Dom.property?_setProperties ..
  · exact absurd here.symm apart

/-- An element that kept or lost its mark was checked if it is. -/
theorem checked_before (generation : s'.document.generation = s.document.generation)
    (same : Agrees Everywhere (fun _ other => other ≠ "checked") (fun _ => True) s.dom s'.dom)
    (lost : ∀ k, s.document.resolve el = .ok k →
      s'.dom.property? k "checked" = s.dom.property? k "checked" ∨
        s'.dom.property? k "checked" = some (.bool false))
    (met : s'.Satisfies (.state (some el) .checked)) : s.Satisfies (.state (some el) .checked) := by
  obtain ⟨v, read, marked⟩ := checked_of_satisfies met
  have connected : s'.answer (.isConnected el) = s.answer (.isConnected el) :=
    answer_isConnected generation same
  refine satisfies_of_look (look_congr ?_) met
  refine List.forall_mem_cons.mpr ⟨connected, List.forall_mem_singleton.mpr ?_⟩
  refine answer_node generation same (f := fun doc k => doc.property? k "checked") fun k found => ?_
  obtain own | lost := lost k found
  · exact property?_checked (same.tag k) own (same.attr k _ trivial)
  · have read : (do return s'.document.property? (← s'.document.resolve el) "checked") = _ := read
    rw [resolve_congr generation same.size same.isElement, found] at read
    have read := (property?_marked lost).symm.trans (Except.ok.inj read)
    obtain ⟨_, -, rfl⟩ := Option.map_eq_some_iff.mp read
    cases marked

theorem radio_heard (still : p.polls = false)
    (free : p ≠ .state (some (s.document.handle n)) .checked) :
    Heard p s (s.modifyDom fun d => Document.checkRadio d n) := by
  have same := agrees_checkRadio s.dom n
  by_cases marks : ∃ el, p = .state (some el) .checked
  · obtain ⟨el, rfl⟩ := marks
    refine .of_quiet rfl (Nat.le_refl _) fun _ => checked_before rfl same fun k found => ?_
    obtain rfl | apart := apart_or_handle found n
    · exact absurd rfl free
    · exact property?_checkRadio apart
  · refine unread_heard still rfl rfl same ?_ ?_ fun _ => rfl
    · exact fun _ _ _ _ => trivial
    · rintro el k other - read - rfl
      obtain read | read := read
      · rw [readsProperty_checked still fun eq => marks ⟨el, eq⟩] at read
        cases read
      · exact absurd read (by decide)

theorem activate_heard (still : p.polls = false) (free : readsAddress p = false)
    (other : p ≠ .state (some (s.document.handle n)) .checked) : Heard p s (s.activate n) := by
  unfold activate Document.activate
  split
  · split
    · refine property_heard still (by decide) (readsProperty_checked still other) ?_
      exact (Dom.agrees_setProperty ..).mono fun _ _ so => so.2
    · exact radio_heard still other
    · exact .refl p s
  · split
    · split
      · exact .refl p s
      · exact setUrl_heard still free _
    · exact .refl p s
  · exact .refl p s

/-! ## Other documents -/

/-- What no look reads. -/
theorem heard_of_same (still : p.polls = false) (changes : s'.changes = s.changes)
    (generation : s'.document.generation = s.document.generation) (dom : s'.dom = s.dom)
    (url : s'.document.url = s.document.url) : Heard p s s' := by
  have same : Agrees Everywhere Everywhere (fun _ => True) s.dom s'.dom := by
    rw [dom]
    exact .refl s.dom
  refine unread_heard still changes generation same ?_ ?_ fun _ => url
  · exact fun _ _ _ _ => trivial
  · exact fun _ _ _ _ _ _ => trivial

theorem load_heard (still : p.polls = false) (free : readsAddress p = false)
    (shown : ∀ el, p ≠ .state (some el) .hidden) (url : String) : Heard p s (s.load url) := by
  unfold load
  split
  · exact setUrl_heard still free url
  · refine .of_quiet rfl (Nat.le_succ _) fun known met => ?_
    match p with
    | .page .. => cases still
    | .state none wanted => exact satisfies_of_look (look_congr (by simp [Probe.reads])) met
    | .text el .. | .attribute el .. | .state (some el) _ =>
        -- the handle is stale in the new document
        refine absurd (hidden_of_absent rfl ?_ met) (shown el)
        intro there
        obtain ⟨n, found, -⟩ := resolved (g := fun n => .ok (Dom.isConnected _ n)) there
        have later := (generation_of_resolve found).1
        have earlier := known el rfl
        exact Nat.not_succ_le_self _ (later ▸ earlier)

theorem navigate_heard (still : p.polls = false) (free : readsAddress p = false)
    (shown : ∀ el, p ≠ .state (some el) .hidden) {url : String}
    (done : s.navigate url = .ok s') : Heard p s s' := by
  unfold navigate at done
  dsimp only at done
  split at done
  · obtain rfl := Except.ok.inj done
    exact load_heard still free shown _
  · cases done

end BrowserScript.Sandbox
