import BrowserScript.Proofs.Dom.Grafts
import BrowserScript.Proofs.Sandbox.Followers

/-!
What has happened to a sandbox, one deed after the other. A deed edits the document that is loaded
or loads another one, so what edits keep and new documents begin with holds at all times: the nodes
make a forest, and the focus is on a node that has a handle. Main statement: `forest_of_operations`,
over all operations, whatever listeners do.
-/

namespace BrowserScript.Sandbox

open Dom (NodeId Edits)
open Page (Handle EventTarget Event EventKind)

variable {L : Type} {s s' s'' : Sandbox L} {el : Handle} {n : NodeId} {k j : Nat} {d : Deed L}

theorem named_of_resolve {doc : Document} (found : doc.resolve el = .ok n) : doc.dom.Named n := by
  simp only [Document.resolve] at found
  split at found
  · rename_i good
    obtain rfl := Except.ok.inj found
    exact good.2
  · cases found

theorem generation_handle {doc : Document} {n : Nat} (less : n < 1 <<< 32) :
    (doc.handle n).id >>> 32 = doc.generation := by
  simp only [Document.handle, Nat.shiftRight_eq_div_pow, Nat.shiftLeft_eq]
  omega

theorem node_handle {doc : Document} {n : Nat} (less : n < 1 <<< 32) :
    (doc.handle n).id % (1 <<< 32) = n := by
  simp only [Document.handle, Nat.shiftLeft_eq]
  omega

theorem resolve_handle {doc : Document} (named : doc.dom.Named n) (less : n < 1 <<< 32) :
    doc.resolve (doc.handle n) = .ok n := by
  simp only [Document.resolve, generation_handle less, node_handle less]
  exact if_pos ⟨trivial, named⟩

/-! ## Deeds within a document -/

/-- The document that was loaded is still there, but for edits. -/
structure Edited (s s' : Sandbox L) : Prop where
  generation : s'.document.generation = s.document.generation
  edits : Edits s.dom s'.dom
  focused : ∀ n ∈ s'.document.focused, n ∈ s.document.focused ∨ s'.dom.Named n

namespace Edited

/-- What no handle and no node depends on. -/
theorem of_same (generation : s'.document.generation = s.document.generation)
    (dom : s'.dom = s.dom) (focused : s'.document.focused = s.document.focused) : Edited s s' :=
  ⟨generation, dom ▸ .refl, fun _ mem => .inl (focused ▸ mem)⟩

theorem refl (s : Sandbox L) : Edited s s := of_same rfl rfl rfl

theorem modifyDom {f : Dom → Dom} (edits : Edits s.dom (f s.dom)) : Edited s (s.modifyDom f) :=
  ⟨rfl, edits, fun _ => .inl⟩

theorem emit (edited : Edited s s') (change : Page.Change) : Edited s (s'.emit change) :=
  ⟨edited.generation, edited.edits, edited.focused⟩

theorem trans (first : Edited s s') (second : Edited s' s'') : Edited s s'' where
  generation := second.generation.trans first.generation
  edits := first.edits.trans second.edits
  focused n mem := by
    obtain before | named := second.focused n mem
    · exact (first.focused n before).imp_right second.edits.named
    · exact .inr named

end Edited

theorem setAttribute_edited {name value : String} (done : s.setAttribute el name value = .ok s') :
    Edited s s' := by
  obtain ⟨n, -, done⟩ := resolved done
  obtain rfl := Except.ok.inj done
  exact (Edited.modifyDom (.single (Dom.edit_setAttribute ..))).emit _

theorem removeAttribute_edited {name : String} (done : s.removeAttribute el name = .ok s') :
    Edited s s' := by
  obtain ⟨n, -, done⟩ := resolved done
  dsimp only at done
  split at done
  · obtain rfl := Except.ok.inj done
    exact (Edited.modifyDom (.single (Dom.edit_removeAttribute ..))).emit _
  · obtain rfl := Except.ok.inj done
    exact .refl s

theorem remove_edited (done : s.remove el = .ok s') : Edited s s' := by
  obtain ⟨n, -, done⟩ := resolved done
  split at done
  · obtain rfl := Except.ok.inj done
    exact .refl s
  · obtain rfl := Except.ok.inj done
    exact (Edited.modifyDom (.single (.detach n))).emit _

theorem setText_edited (f : s.dom.Forest) {text : String} (done : s.setText el text = .ok s') :
    Edited s s' := by
  obtain ⟨n, found, done⟩ := resolved done
  obtain rfl := Except.ok.inj done
  have named := named_of_resolve found
  refine Edited.emit (.modifyDom ?_) _
  exact Dom.edits_setText named.1 (f.text?_of_named named) text

theorem appendMarkup_edited (f : s.dom.Forest) {markup : String} {added : List Handle}
    (done : s.appendMarkup el markup = .ok (added, s')) : Edited s s' := by
  obtain ⟨n, found, done⟩ := resolved done
  obtain ⟨-, rfl⟩ := Prod.mk.inj (Except.ok.inj done)
  have named := named_of_resolve found
  refine Edited.emit (.modifyDom ?_) _
  exact Dom.edits_addMarkup named.1 (f.text?_of_named named) markup

theorem edits_putProperty (d : Dom) (n : NodeId) (name : String) (value : Page.PropertyValue) :
    Edits d (Document.putProperty d n name value) := by
  unfold Document.putProperty
  split
  · exact Dom.edits_setProperties ..
  · exact .single (Dom.edit_setProperty ..)

theorem setProperty_edited (f : s.dom.Forest) {name : String} {value : Page.PropertyValue}
    (done : s.setProperty el name value = .ok s') : Edited s s' := by
  obtain ⟨_, _, same⟩ | same | same | ⟨-, same⟩ := setProperty_cases s el name value <;>
    rw [same] at done
  · exact setAttribute_edited done
  · exact removeAttribute_edited done
  · exact setText_edited f done
  · obtain ⟨n, -, done⟩ := resolved done
    obtain rfl := Except.ok.inj done
    exact .modifyDom (edits_putProperty ..)

theorem activate_edited (s : Sandbox L) (n : NodeId) : Edited s (s.activate n) := by
  unfold activate Document.activate
  split
  · split
    · exact .modifyDom (.single (Dom.edit_setProperty ..))
    · refine .modifyDom (f := fun d => Document.checkRadio d n) ?_
      exact (Dom.edits_setProperties ..).tail (Dom.edit_setProperty ..)
    · exact .refl s
  · split
    · split
      · exact .refl s
      · exact .of_same rfl rfl rfl
    · exact .refl s
  · exact .refl s

/-! ## Deeds -/

namespace Deed

/-- The focus only moves to nodes that have a handle. -/
def Sound (s : Sandbox L) : Deed L → Prop
  | .refocus focused => ∀ n ∈ focused, ∃ el, s.document.resolve el = .ok n
  | _ => True

/-- How many documents a deed loads. -/
def loads (s : Sandbox L) : Deed L → Nat
  | .navigate url => if s.routes.any (·.1 == Url.resolve s.document.url url) then 1 else 0
  | _ => 0

end Deed

/-- A new document in place of the one before. -/
structure Loaded (s s' : Sandbox L) : Prop where
  generation : s'.document.generation = s.document.generation + 1
  dom : ∃ markup, s'.dom = .ofMarkup markup
  focused : s'.document.focused = none

theorem load_cases (s : Sandbox L) (url : String) :
    s.routes.any (·.1 == url) = false ∧ Edited s (s.load url) ∨
      s.routes.any (·.1 == url) = true ∧ Loaded s (s.load url) := by
  unfold load
  rw [← List.isSome_find?]
  cases s.routes.find? (·.1 == url) with
  | none => exact .inl ⟨rfl, .of_same rfl rfl rfl⟩
  | some route => exact .inr ⟨rfl, rfl, ⟨route.2, rfl⟩, rfl⟩

theorem added_of_done {markup : String} (done : Deed.apply s (.appendMarkup el markup) = .ok s') :
    ∃ els, s.appendMarkup el markup = .ok (els, s') := by
  rw [Deed.apply] at done
  cases added : s.appendMarkup el markup with
  | error e =>
      rw [added] at done
      cases done
  | ok both =>
      rw [added] at done
      obtain rfl := Except.ok.inj done
      exact ⟨both.1, rfl⟩

theorem Deed.done_cases (f : s.dom.Forest) (sound : d.Sound s) (done : d.apply s = .ok s') :
    d.loads s = 0 ∧ Edited s s' ∨ d.loads s = 1 ∧ Loaded s s' := by
  cases d with
  | navigate url =>
      have done : s.navigate url = .ok s' := done
      unfold Sandbox.navigate at done
      dsimp only at done
      rw [loads]
      generalize Url.resolve s.document.url url = target at done ⊢
      split at done
      · obtain rfl := Except.ok.inj done
        obtain ⟨none, edited⟩ | ⟨one, loaded⟩ := s.load_cases target
        · exact .inl ⟨if_neg (Bool.eq_false_iff.mp none), edited⟩
        · exact .inr ⟨if_pos one, loaded⟩
      · cases done
  | setText => exact .inl ⟨rfl, setText_edited f done⟩
  | setAttribute => exact .inl ⟨rfl, setAttribute_edited done⟩
  | removeAttribute => exact .inl ⟨rfl, removeAttribute_edited done⟩
  | appendMarkup =>
      obtain ⟨els, added⟩ := added_of_done done
      exact .inl ⟨rfl, appendMarkup_edited f added⟩
  | remove => exact .inl ⟨rfl, remove_edited done⟩
  | setSize =>
      obtain ⟨n, -, done⟩ := resolved done
      obtain rfl := Except.ok.inj done
      exact .inl ⟨rfl, .modifyDom (.single (Dom.edit_setSize ..))⟩
  | setProperty => exact .inl ⟨rfl, setProperty_edited f done⟩
  | activate n =>
      obtain rfl := Except.ok.inj done
      exact .inl ⟨rfl, s.activate_edited n⟩
  | refocus focused =>
      obtain rfl := Except.ok.inj done
      refine .inl ⟨rfl, rfl, .refl, fun n mem => .inr ?_⟩
      obtain ⟨el, found⟩ := sound n mem
      exact named_of_resolve found
  | setTitle | setUrl | keep | addRoute | listen =>
      obtain rfl := Except.ok.inj done
      exact .inl ⟨rfl, .of_same rfl rfl rfl⟩

/-! ## Histories -/

/-- One deed after the other, and how many documents they loaded. -/
inductive History (s : Sandbox L) : Nat → Sandbox L → Prop
  | start : History s 0 s
  | step {k : Nat} {s' s'' : Sandbox L} {d : Deed L} (first : History s k s') (sound : d.Sound s')
      (done : d.apply s' = .ok s'') : History s (k + d.loads s') s''

/-- What holds of a sandbox at all times. -/
structure Sane (s : Sandbox L) : Prop where
  forest : s.dom.Forest
  distinct : s.dom.Distinct
  focused : ∀ n ∈ s.document.focused, s.dom.Named n

theorem Edited.sane (edited : Edited s s') (sane : s.Sane) : s'.Sane where
  forest := edited.edits.forest sane.forest
  distinct := edited.edits.distinct sane.distinct
  focused n mem := by
    obtain before | named := edited.focused n mem
    · exact edited.edits.named (sane.focused n before)
    · exact named

theorem Loaded.sane (loaded : Loaded s s') : s'.Sane := by
  obtain ⟨-, ⟨markup, dom⟩, focused⟩ := loaded
  refine ⟨?_, ?_, ?_⟩
  · rw [dom]
    exact Dom.forest_ofMarkup markup
  · rw [dom]
    exact Dom.distinct_ofMarkup markup
  · rw [focused]
    intro n mem
    cases mem

theorem sane_ofMarkup (url markup : String) : (ofMarkup url markup : Sandbox L).Sane where
  forest := Dom.forest_ofMarkup markup
  distinct := Dom.distinct_ofMarkup markup
  focused n mem := by cases mem

namespace History

theorem one (sound : d.Sound s) (done : d.apply s = .ok s') : History s (d.loads s) s' := by
  have step := History.start.step sound done
  rwa [Nat.zero_add] at step

theorem trans (first : History s k s') (second : History s' j s'') : History s (k + j) s'' := by
  induction second with
  | start => exact first
  | step _ sound done ih =>
      rw [← Nat.add_assoc]
      exact ih.step sound done

theorem sane (history : History s k s') (sane : s.Sane) : s'.Sane := by
  induction history with
  | start => exact sane
  | step _ sound done ih =>
      obtain ⟨-, edited⟩ | ⟨-, loaded⟩ := Deed.done_cases ih.forest sound done
      · exact edited.sane ih
      · exact loaded.sane

theorem generation (history : History s k s') (sane : s.Sane) :
    s'.document.generation = s.document.generation + k := by
  induction history with
  | start => rfl
  | step before sound done ih =>
      obtain ⟨none, edited⟩ | ⟨one, loaded⟩ := Deed.done_cases (before.sane sane).forest sound done
      · rw [none, edited.generation, ih, Nat.add_zero]
      · rw [one, loaded.generation, ih, Nat.add_assoc]

/-- As long as no document is loaded there are only edits. -/
theorem edited (history : History s k s') (sane : s.Sane) (same : k = 0) : Edited s s' := by
  induction history with
  | start => exact .refl s
  | step before sound done ih =>
      obtain ⟨earlier, none⟩ := Nat.add_eq_zero_iff.mp same
      obtain ⟨-, edited⟩ | ⟨one, -⟩ := Deed.done_cases (before.sane sane).forest sound done
      · exact (ih earlier).trans edited
      · cases none.symm.trans one

end History

/-! ## Operations -/

section Operations

variable {σ : Type} {react : React L (StateM σ)} {w : σ}

/-- Listeners may do anything that can happen to a sandbox. -/
def Acts (react : React L (StateM σ)) : Prop :=
  ∀ l target event s w, ∃ k, History s k (((react l target event).run s).run w).1.2

theorem chains_history : Chains fun s s' : Sandbox L => ∃ k, History s k s' where
  refl _ := ⟨0, .start⟩
  trans := by
    rintro s s' s'' ⟨k, first⟩ ⟨j, second⟩
    exact ⟨k + j, first.trans second⟩

theorem history_of_deed (d : Deed L) (sound : d.Sound s) :
    ∃ k, History s k (s.orSame (d.apply s)) := by
  cases done : d.apply s with
  | error e => exact ⟨0, .start⟩
  | ok s' => exact ⟨d.loads s, .one sound done⟩

theorem dispatch_history (acts : Acts react) (target : EventTarget) (event : Event) :
    Leads (fun s s' => ∃ k, History s k s') (dispatch react target event) := by
  intro s w
  refine dispatch_leads chains_history react target event ?_ ?_ s ?_ w
  · exact fun s => history_of_deed (.keep target event) trivial
  · exact notify_leads chains_history fun l => acts l target event
  · exact fun _ n _ _ _ s' => history_of_deed (.activate n) trivial

def Operation.Sound (s : Sandbox L) : Operation L → Prop
  | .outside d => d.Sound s
  | .request _ => True

theorem Operation.history (acts : Acts react) (o : Operation L) (sound : o.Sound s) (w : σ) :
    ∃ k, History s k (o.after react s w) := by
  have refocus (el : Handle) (s : Sandbox L) (focused : Option NodeId)
      (good : ∀ n ∈ focused, s.document.resolve el = .ok n) :
      ∃ k, History s k { s with document := { s.document with focused } } :=
    history_of_deed (.refocus focused) fun n mem => ⟨el, good n mem⟩
  have dispatched (target : EventTarget) (kind : EventKind) (_ : kind ≠ .click) :=
    dispatch_history acts target (.plain kind false)
  cases o with
  | outside d => exact history_of_deed d sound
  | request r =>
      cases r with
      | setProperty el name value =>
          rw [after_setProperty]
          exact history_of_deed _ trivial
      | navigate url =>
          rw [after_navigate]
          exact history_of_deed _ trivial
      | dispatch target event => exact dispatch_history acts target event s w
      | focus el => exact focus_leads chains_history react el (refocus el) dispatched s w
      | blur el => exact blur_leads chains_history react el (refocus el) dispatched s w
      | _ =>
          rw [after_reading rfl]
          exact ⟨0, .start⟩

/-- One operation after the other, with any state of the listeners at each. -/
inductive Reaches (react : React L (StateM σ)) (s : Sandbox L) : Sandbox L → Prop
  | start : Reaches react s s
  | step {s' : Sandbox L} (before : Reaches react s s') (o : Operation L) (sound : o.Sound s')
      (w : σ) : Reaches react s (o.after react s' w)

theorem Reaches.history (acts : Acts react) (reaches : Reaches react s s') :
    ∃ k, History s k s' := by
  induction reaches with
  | start => exact ⟨0, .start⟩
  | step before o sound w ih => exact chains_history.trans ih (o.history acts sound w)

theorem Reaches.sane (acts : Acts react) (reaches : Reaches react s s') (sane : s.Sane) :
    s'.Sane := by
  obtain ⟨k, history⟩ := reaches.history acts
  exact history.sane sane

/-- After any operations the arena is a forest, upward and downward walks follow its links to their
end, and what is below the document is listed once each, in preorder: the connected nodes. -/
theorem forest_of_operations (react : React L (StateM σ)) (acts : Acts react) (url markup : String)
    (s : Sandbox L) (reaches : Reaches react (ofMarkup url markup) s) :
    s.dom.Forest ∧
    (∀ p c, (s.dom.children p).count c = if s.dom.parent c = some p then 1 else 0) ∧
    (∀ n, s.dom.ancestors n =
      match s.dom.parent n with
      | none => []
      | some p => p :: s.dom.ancestors p) ∧
    (∀ n, s.dom.descendants n = (s.dom.children n).flatMap fun c => c :: s.dom.descendants c) ∧
    (s.dom.descendants Dom.root).Nodup ∧
    (∀ n, n ∈ s.dom.descendants Dom.root ↔ n ≠ Dom.root ∧ s.dom.Connected n) ∧
    (∀ n, s.dom.isConnected n ↔ n = Dom.root ∨ n ∈ s.dom.descendants Dom.root) := by
  have f := (reaches.sane acts (sane_ofMarkup url markup)).forest
  refine ⟨f, ?_, ?_, f.descendants_eq, f.nodup_descendants _, ?_, ?_⟩
  · intro p c
    rw [List.Nodup.count (f.once p)]
    simp only [f.linked p c]
  · intro n
    cases link : s.dom.parent n with
    | none => exact Dom.Forest.ancestors_of_none link
    | some p => exact f.ancestors_of_parent link
  · intro n
    rw [f.connected_iff]
    have apart : n ∈ s.dom.descendants Dom.root → n ≠ Dom.root := by
      rintro mem rfl
      exact f.root_notMem_descendants _ mem
    tauto
  · intro n
    rw [f.isConnected_iff, f.connected_iff]

end Operations

namespace Weeded

/-! A click on an item takes it out of its list. -/

def page : Sandbox Unit := .ofMarkup "https://shop.example" "<ul><li>tea</li><li>jam</li></ul>"

def weed : React Unit (StateM Unit) := fun _ target _ =>
  match target with
  | .element el => modify fun s => s.orSame (Deed.apply s (.remove el))
  | .document => pure ()

theorem acts_weed : Acts weed := by
  intro l target event s w
  cases target with
  | element el => exact history_of_deed (.remove el) trivial
  | document => exact ⟨0, .start⟩

def item : Handle := page.handle 2

def heard : Sandbox Unit := page.listen (.element item) .click ()

def clicked : Sandbox Unit :=
  (Operation.request (.dispatch (.element item) (.mouse .click))).after weed heard ()

def grown : Sandbox Unit :=
  (Operation.outside (.appendMarkup item "<b>more</b>")).after weed clicked ()

theorem forest_grown :
    Acts weed ∧ Reaches weed page grown ∧
    (∀ n, grown.dom.isConnected n ↔ n = Dom.root ∨ n ∈ grown.dom.descendants Dom.root) ∧
    grown.dom.descendants Dom.root = [1, 4, 5] ∧ grown.dom.descendants 2 = [3, 6, 7] := by
  have reaches : Reaches weed page grown :=
    ((Reaches.start.step (.outside (.listen (.element item) .click ())) trivial ()).step
      (.request (.dispatch (.element item) (.mouse .click))) trivial ()).step
      (.outside (.appendMarkup item "<b>more</b>")) trivial ()
  have all := forest_of_operations weed acts_weed _ _ grown reaches
  exact ⟨acts_weed, reaches, all.2.2.2.2.2.2, by decide +kernel, by decide +kernel⟩

end Weeded

end BrowserScript.Sandbox
