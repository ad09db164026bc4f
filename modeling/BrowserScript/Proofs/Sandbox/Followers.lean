import BrowserScript.Proofs.Sandbox.Notice

/-!
All that can happen to a sandbox, from outside or on request, and who hears of it. Listeners may
do anything of the kind in between.
-/

namespace BrowserScript.Sandbox

open Dom (NodeId)
open Page (Handle EventTarget Event EventKind Change)

variable {L : Type} {s s' s'' : Sandbox L} {p : Probe} {el : Handle} {n : NodeId}

/-! ## Deeds -/

/-- What happens to a sandbox in one go. -/
inductive Deed (L : Type)
  | setText (el : Handle) (text : String)
  | setAttribute (el : Handle) (name value : String)
  | removeAttribute (el : Handle) (name : String)
  | appendMarkup (el : Handle) (markup : String)
  | remove (el : Handle)
  | setTitle (title : String)
  | setUrl (url : String)
  | setSize (el : Handle) (width height : Float)
  | setProperty (el : Handle) (name : String) (value : Page.PropertyValue)
  | navigate (url : String)
  | activate (n : NodeId)
  | refocus (focused : Option NodeId)
  | keep (target : EventTarget) (event : Event)
  | addRoute (url markup : String)
  | listen (target : EventTarget) (kind : EventKind) (reaction : L)

namespace Deed

def apply (s : Sandbox L) : Deed L → Except Page.Error (Sandbox L)
  | .setText el text => s.setText el text
  | .setAttribute el name value => s.setAttribute el name value
  | .removeAttribute el name => s.removeAttribute el name
  | .appendMarkup el markup => (s.appendMarkup el markup).map (·.2)
  | .remove el => s.remove el
  | .setTitle title => .ok (s.setTitle title)
  | .setUrl url => .ok (s.setUrl url)
  | .setSize el width height => s.setSize el width height
  | .setProperty el name value => s.setProperty el name value
  | .navigate url => s.navigate url
  | .activate n => .ok (s.activate n)
  | .refocus focused => .ok { s with document := { s.document with focused } }
  | .keep target event => .ok { s with dispatched := (target, event) :: s.dispatched }
  | .addRoute url markup => .ok (s.addRoute url markup)
  | .listen target kind reaction => .ok (s.listen target kind reaction)

/-- Deeds that leave no record of a change that a probe may depend on. -/
def Unannounced (s : Sandbox L) (p : Probe) : Deed L → Prop
  | .setUrl _ => readsAddress p
  | .setSize el .. => readsBox el p
  | .setProperty el name _ => name ∉ reflected ∧ readsProperty el name p
  | .navigate _ => readsAddress p ∨ ∃ el, p = .state (some el) .hidden
  | .activate n => readsAddress p ∨ p = .state (some (s.document.handle n)) .checked
  | _ => False

variable {d : Deed L}

theorem heard (still : p.polls = false) (free : ¬ d.Unannounced s p) (done : d.apply s = .ok s') :
    Heard p s s' := by
  cases d with
  | setText => exact setText_heard still done
  | setAttribute => exact setAttribute_heard still done
  | removeAttribute => exact removeAttribute_heard still done
  | appendMarkup el markup =>
      cases added : s.appendMarkup el markup with
      | error e =>
          rw [apply, added] at done
          cases done
      | ok both =>
          rw [apply, added] at done
          obtain rfl := Except.ok.inj done
          exact appendMarkup_heard still added
  | remove => exact remove_heard still done
  | setTitle =>
      obtain rfl := Except.ok.inj done
      exact setTitle_heard still _
  | setUrl =>
      obtain rfl := Except.ok.inj done
      exact setUrl_heard still (Bool.eq_false_iff.mpr free) _
  | setSize => exact setSize_heard still (Bool.eq_false_iff.mpr free) done
  | setProperty el name value =>
      have read (own : name ∉ reflected) : ¬ readsProperty el name p := fun read => free ⟨own, read⟩
      exact setProperty_heard still (fun own => Bool.eq_false_iff.mpr (read own)) done
  | navigate url =>
      have done : s.navigate url = .ok s' := done
      obtain ⟨address, shown⟩ := not_or.mp free
      exact navigate_heard still (Bool.eq_false_iff.mpr address) (fun el eq => shown ⟨el, eq⟩) done
  | activate =>
      obtain rfl := Except.ok.inj done
      obtain ⟨address, other⟩ := not_or.mp free
      exact activate_heard still (Bool.eq_false_iff.mpr address) other
  | refocus | keep | addRoute | listen =>
      obtain rfl := Except.ok.inj done
      exact heard_of_same still rfl rfl rfl rfl

theorem load_changes (url : String) : (s.load url).changes = s.changes := by
  unfold load
  split <;> rfl

theorem mute (quiet : d.Unannounced s p) (done : d.apply s = .ok s') : s'.changes = s.changes := by
  cases d with
  | setUrl | activate =>
      obtain rfl := Except.ok.inj done
      rfl
  | setSize =>
      obtain ⟨n, -, done⟩ := resolved done
      obtain rfl := Except.ok.inj done
      rfl
  | setProperty el name value =>
      rw [apply, setProperty_own quiet.1] at done
      obtain ⟨n, -, done⟩ := resolved done
      obtain rfl := Except.ok.inj done
      rfl
  | navigate url =>
      have done : s.navigate url = .ok s' := done
      unfold Sandbox.navigate at done
      dsimp only at done
      split at done
      · obtain rfl := Except.ok.inj done
        exact load_changes _
      · cases done
  | setText | setAttribute | removeAttribute | appendMarkup | remove | setTitle | refocus | keep
  | addRoute | listen => cases quiet

end Deed

/-- A change that fails is none. -/
def orSame (s : Sandbox L) : Except Page.Error (Sandbox L) → Sandbox L
  | .ok s' => s'
  | .error _ => s

theorem Deed.orSame_heard {d : Deed L} (still : p.polls = false) (announced : ¬ d.Unannounced s p) :
    Heard p s (s.orSame (d.apply s)) := by
  cases done : d.apply s with
  | error e => exact .refl p s
  | ok s' => exact d.heard still announced done

theorem Deed.orSame_mute {d : Deed L} (quiet : d.Unannounced s p) :
    (s.orSame (d.apply s)).changes = s.changes := by
  cases done : d.apply s with
  | error e => rfl
  | ok s' => exact d.mute quiet done

/-- One deed after the other, none of them unannounced. -/
inductive Trail (p : Probe) (s : Sandbox L) : Sandbox L → Prop
  | start : Trail p s s
  | step {s' s'' : Sandbox L} {d : Deed L} (first : Trail p s s') (announced : ¬ d.Unannounced s' p)
      (done : d.apply s' = .ok s'') : Trail p s s''

theorem Trail.heard (still : p.polls = false) (trail : Trail p s s') : Heard p s s' := by
  induction trail with
  | start => exact .refl p s
  | step first announced done ih => exact ih.trans (Deed.heard still announced done)

/-! ## Runs -/

/-- What holds over every run when it holds over its parts. -/
structure Chains (R : Sandbox L → Sandbox L → Prop) : Prop where
  refl (s : Sandbox L) : R s s
  trans {s s' s'' : Sandbox L} : R s s' → R s' s'' → R s s''

section Runs

variable {σ : Type} {α β : Type} {R : Sandbox L → Sandbox L → Prop} (chains : Chains R)

/-- A run leads from every sandbox to one related to it, whatever the state of the listeners. -/
def Leads (R : Sandbox L → Sandbox L → Prop) (a : Acting L (StateM σ) α) : Prop :=
  ∀ s w, R s ((a.run s).run w).1.2

include chains

theorem leads_pure (a : α) : Leads R (pure a : Acting L (StateM σ) α) :=
  fun s _ => chains.refl s

theorem leads_bind {a : Acting L (StateM σ) α} {f : α → Acting L (StateM σ) β}
    (first : Leads R a) (rest : ∀ x, Leads R (f x)) : Leads R (a >>= f) :=
  fun s w => chains.trans (first s w) (rest _ _ _)

theorem leads_forIn {γ : Type} (places : List γ) {f : γ → β → Acting L (StateM σ) (ForInStep β)}
    (each : ∀ place b, Leads R (f place b)) (b : β) : Leads R (forIn places b f) := by
  induction places generalizing b with
  | nil => exact leads_pure chains b
  | cons place rest ih =>
      rw [List.forIn_cons]
      refine leads_bind chains (each place b) fun step => ?_
      cases step with
      | done b => exact leads_pure chains b
      | yield b => exact ih b

omit chains in
/-- The listeners at one place on the way of an event. -/
def notify (react : React L (StateM σ)) (target : EventTarget) (event : Event)
    (place : EventTarget) : Acting L (StateM σ) Unit := do
  let here := (← get).listeners.filter fun l => l.target = place && l.kind = event.kind
  for l in here do react l.reaction target event

omit chains in
/-- Keep an event and let the listeners act at each place on its way. -/
def announce (react : React L (StateM σ)) (target : EventTarget) (event : Event)
    (path : List EventTarget) : Acting L (StateM σ) Unit := do
  modify fun s => { s with dispatched := (target, event) :: s.dispatched }
  for place in path do notify react target event place

omit chains in
/-- The sandbox when all listeners have acted. -/
def announced (react : React L (StateM σ)) (target : EventTarget) (event : Event) (s : Sandbox L)
    (w : σ) : Sandbox L :=
  match s.pathOf target event.bubbles with
  | .error _ => s
  | .ok path => (((announce react target event path).run s).run w).1.2

omit chains in
/-- The node on which an event does something by itself. -/
def clickedNode (s : Sandbox L) (target : EventTarget) (event : Event) : Option NodeId :=
  match target with
  | .element el => if event.kind = .click then (s.document.resolve el).toOption else none
  | .document => none

omit chains in
theorem clickedNode_eq_some_iff {target : EventTarget} {event : Event} :
    s.clickedNode target event = some n ↔
      ∃ el, target = .element el ∧ event.kind = .click ∧ s.document.resolve el = .ok n := by
  unfold clickedNode
  cases target with
  | document => simp
  | element el =>
      by_cases click : event.kind = .click
      · cases found : s.document.resolve el <;> simp [click, found, Except.toOption]
      · simp [click]

omit chains in
/-- A click does what it does by itself when the listeners have acted, on the node that the target
was before. -/
theorem dispatch_eq (react : React L (StateM σ)) (target : EventTarget) (event : Event)
    (s : Sandbox L) (w : σ) :
    (((dispatch react target event).run s).run w).1.2 =
      match s.clickedNode target event with
      | some n => (s.announced react target event w).activate n
      | none => s.announced react target event w := by
  simp only [dispatch, announced, announce, notify, StateT.run_bind, StateT.run_get, pure_bind]
  cases target with
  | document =>
      cases s.pathOf .document event.bubbles <;> rfl
  | element el =>
      simp only [pathOf, clickedNode]
      by_cases click : event.kind = .click
      · simp only [if_pos click]
        cases s.document.resolve el <;> rfl
      · simp only [if_neg click]
        cases s.document.resolve el <;> rfl

theorem announced_leads (react : React L (StateM σ)) (target : EventTarget) (event : Event)
    (keep : ∀ s, R s { s with dispatched := (target, event) :: s.dispatched })
    (notified : ∀ place, Leads R (notify react target event place)) (s : Sandbox L) (w : σ) :
    R s (s.announced react target event w) := by
  unfold announced
  split
  · exact chains.refl s
  · have kept : Leads R (modify fun s =>
        { s with dispatched := (target, event) :: s.dispatched } : Acting L (StateM σ) PUnit) :=
      fun s _ => keep s
    refine leads_bind chains kept (fun _ => leads_forIn chains _ (fun place _ => ?_) _) s w
    exact leads_bind chains (notified place) fun _ => leads_pure chains _

/-- An event is kept, listeners act, and a click does what it does by itself. -/
theorem dispatch_leads (react : React L (StateM σ)) (target : EventTarget) (event : Event)
    (keep : ∀ s, R s { s with dispatched := (target, event) :: s.dispatched })
    (notified : ∀ place, Leads R (notify react target event place)) (s : Sandbox L)
    (clicked : ∀ el n, target = .element el → event.kind = .click →
      s.document.resolve el = .ok n → ∀ s', R s' (s'.activate n)) (w : σ) :
    R s (((dispatch react target event).run s).run w).1.2 := by
  have acted := announced_leads chains react target event keep notified s w
  rw [dispatch_eq]
  cases own : s.clickedNode target event with
  | none => exact acted
  | some n =>
      obtain ⟨el, about, click, found⟩ := clickedNode_eq_some_iff.mp own
      exact chains.trans acted (clicked el n about click found _)

theorem focus_leads (react : React L (StateM σ)) (el : Handle)
    (refocus : ∀ s focused, (∀ n ∈ focused, s.document.resolve el = .ok n) →
      R s { s with document := { s.document with focused } })
    (dispatched : ∀ target kind, kind ≠ .click →
      Leads R (dispatch react target (.plain kind false))) : Leads R (focus react el) := by
  intro s w
  simp only [focus, StateT.run_bind, StateT.run_get, pure_bind]
  cases found : s.document.resolve el with
  | error e => exact chains.refl s
  | ok n =>
      simp only [StateT.run_bind, StateT.run_set, pure_bind]
      refine chains.trans (refocus s (some n) fun m mem => Option.some.inj mem ▸ found) ?_
      cases s.document.focused.filter (· != n) with
      | some p =>
          refine leads_bind chains (dispatched _ _ (by decide)) (fun lost => ?_) _ w
          cases lost with
          | error e => exact leads_pure chains _
          | ok _ => exact dispatched _ _ (by decide)
      | none => exact dispatched _ _ (by decide) _ w

theorem blur_leads (react : React L (StateM σ)) (el : Handle)
    (refocus : ∀ s focused, (∀ n ∈ focused, s.document.resolve el = .ok n) →
      R s { s with document := { s.document with focused } })
    (dispatched : ∀ target kind, kind ≠ .click →
      Leads R (dispatch react target (.plain kind false))) : Leads R (blur react el) := by
  intro s w
  simp only [blur, StateT.run_bind, StateT.run_get, pure_bind]
  cases s.document.resolve el with
  | error e => exact chains.refl s
  | ok n =>
      by_cases own : s.document.focused = some n
      · simp only [if_pos own, StateT.run_bind, StateT.run_set, pure_bind]
        exact chains.trans (refocus s none fun _ mem => nomatch mem)
          (dispatched _ _ (by decide) _ w)
      · simp only [if_neg own]
        exact chains.refl s

theorem notify_leads {react : React L (StateM σ)} {target : EventTarget} {event : Event}
    (reacts : ∀ l, Leads R (react l target event)) (place : EventTarget) :
    Leads R (notify react target event place) := by
  intro s w
  simp only [notify, StateT.run_bind, StateT.run_get, pure_bind]
  refine leads_forIn chains _ (fun l _ => ?_) _ s w
  exact leads_bind chains (reacts l.reaction) fun _ => leads_pure chains _

end Runs

/-! ## Operations -/

inductive Operation (L : Type)
  | outside (d : Deed L)
  | request (r : Page.Request)

namespace Operation

variable {σ : Type}

def after (react : React L (StateM σ)) (s : Sandbox L) (w : σ) : Operation L → Sandbox L
  | .outside d => s.orSame (d.apply s)
  | .request r => (((serve react r).run s).run w).1.2

/-- Operations that can change what a probe finds by themselves and leave no record of it. -/
def Unannounced (s : Sandbox L) (p : Probe) : Operation L → Prop
  | .outside d => d.Unannounced s p
  | .request (.setProperty el name value) => Deed.Unannounced s p (.setProperty el name value)
  | .request (.navigate url) => Deed.Unannounced s p (.navigate url)
  | .request (.dispatch (.element el) event) =>
    event.kind = .click ∧ ∃ n, s.document.resolve el = .ok n ∧
      Deed.Unannounced s p (.activate n)
  | .request _ => False

variable {react : React L (StateM σ)} {w : σ}

theorem after_changing (f : Sandbox L → Except Page.Error (Sandbox L)) :
    (((changing f : Acting L (StateM σ) _).run s).run w).1.2 = s.orSame (f s) := by
  simp only [changing, StateT.run_bind, StateT.run_get, pure_bind]
  cases f s with
  | error e => rfl
  | ok s' => rfl

theorem after_setProperty (el : Handle) (name : String) (value : Page.PropertyValue) :
    (request (.setProperty el name value)).after react s w =
      s.orSame (Deed.apply s (.setProperty el name value)) :=
  after_changing _

theorem after_navigate (url : String) :
    (request (.navigate url)).after react s w = s.orSame (Deed.apply s (.navigate url)) := by
  have served : serve react (.navigate url) = changing fun s => s.navigate url := rfl
  rw [after, served, Deed.apply]
  -- a variable in place of the step, or comparing the sides would resolve the address
  generalize step : (fun s : Sandbox L => s.navigate url) = f
  have own : s.navigate url = f s := by rw [← step]
  rw [own]
  exact after_changing f

theorem after_reading {r : Page.Request} (reading : isReading r) :
    (request r).after react s w = s :=
  congrArg (fun done => (done.run w).1.2) (serve_reading react reading s)

theorem le_shifted_handle (doc : Document) (n : NodeId) :
    doc.generation ≤ (doc.handle n).id >>> 32 := by
  simp only [Document.handle, Nat.shiftRight_eq_div_pow, Nat.shiftLeft_eq]
  omega

/-- Listeners may have loaded another document since the click. -/
theorem activate_later (still : p.polls = false) (known : s.Knows p)
    (announced : ¬ Deed.Unannounced s p (.activate n))
    (later : s.document.generation ≤ s'.document.generation) : Heard p s' (s'.activate n) := by
  obtain ⟨address, other⟩ := not_or.mp announced
  refine activate_heard still (Bool.eq_false_iff.mpr address) fun eq => other ?_
  have upper : s'.document.generation ≤ s.document.generation := by
    have about : p.element? = some (s'.document.handle n) := by rw [eq]; rfl
    exact Nat.le_trans (le_shifted_handle s'.document n) (known _ about)
  rw [eq, Document.handle, Document.handle, Nat.le_antisymm later upper]

theorem chains_heard (p : Probe) : Chains (Heard (L := L) p) where
  refl := .refl p
  trans := .trans

theorem chains_later (p : Probe) (g : Nat) :
    Chains fun s s' : Sandbox L => g ≤ s.document.generation → Heard p s s' where
  refl s _ := .refl p s
  trans first second later :=
    (first later).trans (second (Nat.le_trans later (first later).generation))

theorem chains_silent :
    Chains fun s s' : Sandbox L =>
      s.listeners = [] → s'.listeners = [] ∧ s'.changes = s.changes where
  refl s alone := ⟨alone, rfl⟩
  trans first second alone := by
    obtain ⟨alone, changes⟩ := first alone
    obtain ⟨alone, changes'⟩ := second alone
    exact ⟨alone, changes'.trans changes⟩

theorem dispatch_silent (react : React L (StateM σ)) (target : EventTarget) (event : Event)
    (alone : s.listeners = []) (w : σ) :
    (((dispatch react target event).run s).run w).1.2.changes = s.changes := by
  refine (dispatch_leads chains_silent react target event ?_ ?_ s ?_ w alone).2
  · exact fun s alone => ⟨alone, rfl⟩
  · intro place s w alone
    simp only [notify, StateT.run_bind, StateT.run_get, pure_bind, alone]
    exact ⟨alone, rfl⟩
  · exact fun _ _ _ _ _ s' alone => ⟨alone, rfl⟩

section Heard

variable (still : p.polls = false)
  (reacts : ∀ l target event s w, Trail p s (((react l target event).run s).run w).1.2)
include still reacts

theorem dispatch_heard (known : s.Knows p) {target : EventTarget} {event : Event}
    (announced : ∀ el n, target = .element el → event.kind = .click →
      s.document.resolve el = .ok n → ¬ Deed.Unannounced s p (.activate n)) :
    Heard p s (((dispatch react target event).run s).run w).1.2 := by
  refine dispatch_leads (chains_later p s.document.generation) react target event ?_ ?_ s ?_ w
    (Nat.le_refl _)
  · exact fun s _ => heard_of_same still rfl rfl rfl rfl
  · refine notify_leads (chains_later p _) fun l s w _ => ?_
    exact (reacts l target event s w).heard still
  · intro el n own click found s' later
    exact activate_later still known (announced el n own click found) later

theorem plain_leads (target : EventTarget) {kind : EventKind} (other : kind ≠ .click) :
    Leads (Heard p) (dispatch react target (.plain kind false)) := by
  intro s w
  refine dispatch_leads (chains_heard p) react target (.plain kind false) ?_ ?_ s ?_ w
  · exact fun s => heard_of_same still rfl rfl rfl rfl
  · refine notify_leads (chains_heard p) fun l s w => ?_
    exact (reacts l target _ s w).heard still
  · exact fun _ _ _ click => absurd click other

theorem request_heard (known : s.Knows p) {r : Page.Request}
    (announced : ¬ (Operation.request r).Unannounced s p) :
    Heard p s ((Operation.request r).after react s w) := by
  have refocus (el : Handle) (s : Sandbox L) (focused : Option NodeId) :
      (∀ n ∈ focused, s.document.resolve el = .ok n) →
        Heard p s { s with document := { s.document with focused } } :=
    fun _ => heard_of_same still rfl rfl rfl rfl
  have dispatched (target : EventTarget) (kind : EventKind) (other : kind ≠ .click) :=
    plain_leads still reacts target other
  cases r with
  | setProperty el name value =>
      rw [after_setProperty]
      exact Deed.orSame_heard still announced
  | navigate url =>
      rw [after_navigate]
      exact Deed.orSame_heard still announced
  | dispatch target event =>
      refine dispatch_heard still reacts known fun el n own click found free => ?_
      subst own
      exact announced ⟨click, n, found, free⟩
  | focus el => exact focus_leads (chains_heard p) react el (refocus el) dispatched s w
  | blur el => exact blur_leads (chains_heard p) react el (refocus el) dispatched s w
  | _ =>
      rw [after_reading rfl]
      exact .refl p s

theorem operation_heard (known : s.Knows p) {o : Operation L} (announced : ¬ o.Unannounced s p) :
    Heard p s (o.after react s w) := by
  cases o with
  | outside d => exact d.orSame_heard still announced
  | request r => exact request_heard still reacts known announced

end Heard

theorem unannounced_silent {o : Operation L} (quiet : o.Unannounced s p)
    (alone : s.listeners = []) : (o.after react s w).changes = s.changes := by
  cases o with
  | outside d => exact d.orSame_mute quiet
  | request r =>
      match r with
      | .setProperty el name value =>
          rw [after_setProperty]
          exact Deed.orSame_mute quiet
      | .navigate url =>
          rw [after_navigate]
          exact Deed.orSame_mute quiet
      | .dispatch target event => exact dispatch_silent react target event alone w

end Operation

/-- Those who follow the changes hear of every operation that makes a probe true, unless the
operation is unannounced; then nothing is told, but for what listeners do. -/
theorem changes_heard {σ : Type} (react : React L (StateM σ)) (o : Operation L) (s : Sandbox L)
    (w : σ) (p : Probe)
    (reacts : ∀ l target event s w, Trail p s (((react l target event).run s).run w).1.2)
    (known : s.Knows p) (unmet : ¬ s.Satisfies p) (met : (o.after react s w).Satisfies p) :
    (¬ o.Unannounced s p → p.polls ∨ ∃ more,
      (o.after react s w).changes.toList = s.changes.toList ++ more ∧ ∃ c ∈ more, p.wants c) ∧
    (o.Unannounced s p → s.listeners = [] → (o.after react s w).changes = s.changes) := by
  refine ⟨fun announced => ?_, Operation.unannounced_silent⟩
  cases still : p.polls with
  | true => exact .inl rfl
  | false =>
      obtain ⟨more, told, -, heard⟩ := Operation.operation_heard still reacts known announced
      exact .inr ⟨more, told, heard known unmet met⟩

namespace Ticked

/-! A box gets its mark from its attribute, or from a click. -/

def page : Sandbox Unit := .ofMarkup "https://shop.example" "<input type='checkbox'>"

def box : Handle := page.handle 1

def ticked : Probe := .state (some box) .checked

def mark : Operation Unit := .outside (.setAttribute box "checked" "")

def click : Operation Unit := .request (.dispatch (.element box) (.mouse .click))

def idle : React Unit (StateM Unit) := fun _ _ _ => pure ()

theorem mark_heard_click_unheard :
    (∃ more, (mark.after idle page ()).changes.toList = page.changes.toList ++ more ∧
      ∃ c ∈ more, ticked.wants c) ∧
    ¬ page.Satisfies ticked ∧ (click.after idle page ()).Satisfies ticked ∧
      (click.after idle page ()).changes = page.changes := by
  have found : page.look ticked = .unmet
      (.fail "State verification failed: element is not checked (element is not checked)") := by
    decide +kernel
  have unmet : ¬ page.Satisfies ticked := by
    intro ⟨_, met⟩
    cases found.symm.trans met
  have known : page.Knows ticked := by
    intro el about
    cases about
    decide
  have marked : (mark.after idle page ()).Satisfies ticked :=
    ⟨.pass "State verification passed: element is checked", by decide +kernel⟩
  have clicked : (click.after idle page ()).Satisfies ticked :=
    ⟨.pass "State verification passed: element is checked", by decide +kernel⟩
  have alone (l target event s w) :
      Trail ticked s (((idle l target event).run s).run w).1.2 := .start
  have quiet : click.Unannounced page ticked := ⟨rfl, 1, if_pos (by decide +kernel), .inr rfl⟩
  refine ⟨?_, unmet, clicked, ?_⟩
  · have heard := changes_heard idle mark page () ticked alone known unmet marked
    exact (heard.1 id).resolve_left (by decide)
  · have silent := changes_heard idle click page () ticked alone known unmet clicked
    exact silent.2 quiet rfl

end Ticked

end BrowserScript.Sandbox
