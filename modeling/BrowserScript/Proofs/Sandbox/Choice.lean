import BrowserScript.Proofs.Sandbox.Options
import BrowserScript.Proofs.Sandbox.Queries

/-!
Choosing in a selection list of a sandbox that nobody listens to. The access focuses the list, sets
its value, looks for an option with the value as an attribute, selects that too, and tells of a
change; each step leaves a document and keeps events. Main statement: `select_chooses`.
-/

namespace BrowserScript.Sandbox

open Dom (NodeId Agrees Everywhere)
open Page (Access Handle EventTarget Event PropertyValue)

variable {L σ : Type} {s : Sandbox L} {el : Handle} {list n : NodeId} {name value : String}

/-! ## Without listeners -/

section Alone

variable {M : Type → Type} [Monad M] [LawfulMonad M] (react : React L M) {α β : Type} {x : α}
  {y : β} {doc doc' : Document}

theorem forIn_still {body : α → PUnit → Acting L M (ForInStep PUnit)}
    (still : ∀ x, (body x ⟨⟩).run s = pure (.yield ⟨⟩, s)) (xs : List α) :
    (forIn xs PUnit.unit body).run s = pure (⟨⟩, s) := by
  induction xs with
  | nil => rw [List.forIn_nil, StateT.run_pure]
  | cons x xs ih => rw [List.forIn_cons, StateT.run_bind, still, pure_bind, ih]

/-- An access ends well and leaves a document. Apart from it only events are kept. -/
def Leaves (a : Access α) (s : Sandbox L) (x : α) (doc : Document) : Prop :=
  ∃ events, (perform react a.result).run s =
    pure (.ok x, { s with document := doc, dispatched := events })

variable {react}

theorem Leaves.bind {a : Access α} {f : α → Access β} (first : Leaves react a s x doc)
    (next : ∀ events, Leaves react (f x) { s with document := doc, dispatched := events } y doc') :
    Leaves react (a >>= f) s y doc' := by
  obtain ⟨events, first⟩ := first
  obtain ⟨events', next⟩ := next events
  refine ⟨events', (perform_bind react a.result _ s).trans ?_⟩
  rw [first, pure_bind]
  exact next

theorem leaves_ask {r : Page.Request} {x : r.Result}
    (served : ∃ events, (serve react r).run s =
      pure ((.ok x : Page.signature.Answer r), { s with document := doc, dispatched := events })) :
    Leaves react (Page.ask r) s x doc := by
  obtain ⟨events, served⟩ := served
  refine ⟨events, Eq.trans ?_ served⟩
  change (serve react r >>= fun x => pure x).run s = _
  rw [bind_pure]

/-- An event that nobody listens to is kept, and a click does what it does by itself. -/
theorem dispatch_unheard (alone : s.listeners = []) (found : s.document.resolve el = .ok n)
    (event : Event) :
    (dispatch react (.element el) event).run s = pure (.ok (),
      if event.kind = .click then
        { s with dispatched := (.element el, event) :: s.dispatched }.activate n
      else { s with dispatched := (.element el, event) :: s.dispatched }) := by
  have way : ∃ path, s.pathOf (.element el) event.bubbles = .ok path := by
    rw [pathOf, found]
    exact ⟨_, rfl⟩
  obtain ⟨path, way⟩ := way
  simp only [dispatch, StateT.run_bind, StateT.run_get, pure_bind, way, StateT.run_modify]
  rw [forIn_still, pure_bind]
  · by_cases click : event.kind = .click
    · simp only [if_pos click, found, Except.toOption, StateT.run_bind, StateT.run_modify,
        pure_bind, StateT.run_pure]
      rfl
    · simp only [if_neg click, StateT.run_pure]
  · intro place
    simp [alone]

theorem dispatch_alone (alone : s.listeners = []) (found : s.document.resolve el = .ok n)
    {kind : Page.EventKind} (bubbles : Bool) (other : kind ≠ .click) :
    (dispatch react (.element el) (.plain kind bubbles)).run s = pure (.ok (), { s with
      dispatched := (.element el, .plain kind bubbles) :: s.dispatched }) := by
  have other : (Event.plain kind bubbles).kind ≠ .click := other
  rw [dispatch_unheard alone found, if_neg other]

theorem leaves_dispatch (alone : s.listeners = []) (found : s.document.resolve el = .ok n)
    {kind : Page.EventKind} (bubbles : Bool) (other : kind ≠ .click) :
    Leaves react (Page.dispatch (.element el) (.plain kind bubbles)) s () s.document :=
  leaves_ask ⟨_, dispatch_alone alone found bubbles other⟩

theorem focus_alone (alone : s.listeners = []) (found : s.document.resolve el = .ok n)
    (kept : ∀ p ∈ s.document.focused, s.document.resolve (s.handle p) = .ok p) :
    ∃ events, (focus react el).run s = pure (.ok (), { s with
      document := { s.document with focused := some n }, dispatched := events }) := by
  let moved (events : List (EventTarget × Event)) : Sandbox L := { s with
    document := { s.document with focused := some n }, dispatched := events }
  have gets (events : List (EventTarget × Event)) :
      (dispatch react (.element el) (.plain .focus false)).run (moved events) =
        pure (.ok (), moved ((.element el, .plain .focus false) :: events)) :=
    dispatch_alone (s := moved events) alone found false (by decide)
  simp only [focus, StateT.run_bind, StateT.run_get, pure_bind, found, StateT.run_set]
  cases before : s.document.focused.filter (· != n) with
  | none => exact ⟨_, gets s.dispatched⟩
  | some p =>
      have lost := kept p (Option.mem_filter_iff.mp before).1
      have loses : (dispatch react (.element (s.handle p)) (.plain .blur false)).run
          (moved s.dispatched) = pure (.ok (), moved
            ((.element (s.handle p), .plain .blur false) :: s.dispatched)) :=
        dispatch_alone (s := moved s.dispatched) alone lost false (by decide)
      refine ⟨(.element el, .plain .focus false) :: (.element (s.handle p), .plain .blur false) ::
        s.dispatched, ?_⟩
      rw [StateT.run_bind, loses, pure_bind]
      exact gets _

theorem leaves_focus (alone : s.listeners = []) (found : s.document.resolve el = .ok n)
    (kept : ∀ p ∈ s.document.focused, s.document.resolve (s.handle p) = .ok p) :
    Leaves react (Page.focus el) s () { s.document with focused := some n } :=
  leaves_ask (focus_alone alone found kept)

theorem changing_ok {f : Sandbox L → Except Page.Error (Sandbox L)} {s' : Sandbox L}
    (done : f s = .ok s') : (changing f : Acting L M _).run s = pure (.ok (), s') := by
  simp only [changing, StateT.run_bind, StateT.run_get, pure_bind, done, StateT.run_set,
    StateT.run_pure]

theorem leaves_setProperty (own : name ∉ reflected) (found : s.document.resolve el = .ok n)
    (value : PropertyValue) : Leaves react (Page.setProperty el name value) s ()
      (s.document.modifyDom fun d => Document.putProperty d n name value) := by
  have done : s.setProperty el name value =
      .ok (s.modifyDom fun d => Document.putProperty d n name value) := by
    rw [setProperty_own own, found]
    rfl
  exact leaves_ask ⟨s.dispatched, changing_ok done⟩

theorem leaves_xpath {expression : String} {ns : List NodeId}
    (found : s.document.resolve el = .ok n)
    (selects : XPath.select s.dom expression (some n) = .ok ns) :
    Leaves react (Page.xpath expression (some el)) s (s.handles ns) s.document := by
  have start : (some el).mapM s.document.resolve = .ok (some n) := by
    rw [Option.mapM_some, found]
    rfl
  refine leaves_ask ⟨s.dispatched, (serve_reading react rfl s).trans ?_⟩
  rw [answer_xpath_from start selects]
  rfl

theorem resolve_same (doc : Document) {d : Dom} {Q : NodeId → String → Prop} {B : NodeId → Prop}
    (same : Agrees Everywhere Q B doc.dom d) (focused : Option NodeId) (el : Handle) :
    ({ doc with dom := d, focused } : Document).resolve el = doc.resolve el := by
  refine resolve_congr ?_ same.size same.isElement el
  rfl

theorem putProperty_value {d : Dom} (tag : d.tag? list = some "select") (value : String) :
    Document.putProperty d list "value" (.text value) = Document.chooseOption d list value := by
  rw [Document.putProperty, tag]
  rfl

theorem leaves_choose (found : s.document.resolve el = .ok list)
    (tag : s.dom.tag? list = some "select") (value : String) :
    Leaves react (Page.setProperty el "value" (.text value)) s ()
      (s.document.modifyDom fun d => Document.chooseOption d list value) := by
  have own : "value" ∉ reflected := by decide
  have whole : s.document.modifyDom (fun d => Document.chooseOption d list value) =
      s.document.modifyDom fun d => Document.putProperty d list "value" (.text value) :=
    congrArg (fun d => { s.document with dom := d }) (putProperty_value tag value).symm
  rw [whole]
  exact leaves_setProperty own found _

/-- An option that was found is selected, whatever else is selected by then. -/
theorem leaves_mark (element : s.dom.isElement n) (small : n < 1 <<< 32) :
    Leaves react (Page.setProperty (s.handle n) "selected" (.bool true)) s ()
      (s.document.modifyDom fun d => d.setProperty n "selected" (.bool true)) := by
  have own : "selected" ∉ reflected := by decide
  exact leaves_setProperty own (resolve_handle (named_of_isElement element) small) _

theorem leaves_select (alone : s.listeners = []) (sane : s.Sane) (room : s.dom.size ≤ 1 <<< 32)
    (found : s.document.resolve el = .ok list) (tag : s.dom.tag? list = some "select")
    (value : String) : Leaves react (Page.select el value) s ()
      { s.document with dom := chosen s.dom list value, focused := some list } := by
  let doc (d : Dom) : Document := { s.document with dom := d, focused := some list }
  let after (d : Dom) (events : List (EventTarget × Event)) : Sandbox L :=
    { s with document := doc d, dispatched := events }
  have small {n : NodeId} (named : s.dom.Named n) : n < 1 <<< 32 := Nat.lt_of_lt_of_le named.1 room
  have chose := agrees_chooseOption s.dom list value
  have edits : Dom.Edits s.dom (Document.chooseOption s.dom list value) :=
    Dom.edits_setProperties ..
  obtain ⟨els, selects, first⟩ := Page.exists_select_optionPath (edits.forest sane.forest)
    (edits.distinct sane.distinct) list value
  rw [firstCarrier_chooseOption] at first
  have named {d : Dom} {Q : NodeId → String → Prop} {B : NodeId → Prop}
      (same : Agrees Everywhere Q B s.dom d) : (doc d).resolve el = .ok list :=
    (resolve_same s.document same _ el).trans found
  have focuses : Leaves react (Page.focus el) s () (doc s.dom) :=
    leaves_focus alone found fun p focused =>
      resolve_handle (sane.focused p focused) (small (sane.focused p focused))
  have chooses (events) : Leaves react (Page.setProperty el "value" (.text value))
      (after s.dom events) () (doc (Document.chooseOption s.dom list value)) :=
    leaves_choose (s := after s.dom events) found tag value
  have finds (events) : Leaves react (Page.xpath (Page.optionPath value) (some el))
      (after (Document.chooseOption s.dom list value) events) (s.handles els)
      (doc (Document.chooseOption s.dom list value)) :=
    leaves_xpath (named chose) selects
  have tells (events) : Leaves react (Page.dispatch (.element el) (.plain .change true))
      (after (chosen s.dom list value) events) () (doc (chosen s.dom list value)) :=
    leaves_dispatch (s := after (chosen s.dom list value) events) alone (named (agrees_chosen ..))
      true (by decide)
  refine focuses.bind fun _ => (chooses _).bind fun _ => (finds _).bind fun _ => ?_
  cases els with
  | nil =>
      have whole : chosen s.dom list value = Document.chooseOption s.dom list value := by
        rw [chosen, ← first, List.head?_nil, Option.elim_none]
      rw [whole] at tells ⊢
      exact tells _
  | cons o els =>
      have element := isElement_of_mem_options (mem_of_firstCarrier first.symm).1
      have kept : (Document.chooseOption s.dom list value).isElement o := by
        rwa [chose.isElement]
      have whole : chosen s.dom list value =
          (Document.chooseOption s.dom list value).setProperty o "selected" (.bool true) := by
        rw [chosen, ← first, List.head?_cons, Option.elim_some]
      rw [whole] at tells ⊢
      exact Leaves.bind (leaves_mark kept (small (named_of_isElement element))) tells

end Alone

/-- After any operations, without listeners, choosing by a value selects the first option that has
it and the one that a query finds with it as an attribute, and no other: none without an option of
the value, one if the query finds no other, and two if it does. In the document that takes a first
option with the value as its text. The list shows the value if an option has it, and nothing if
not. Outside of it every property reads as before, but for the value of a list around it. -/
theorem select_chooses (react : React L (StateM σ)) (acts : Acts react) (url markup : String)
    (s : Sandbox L) (reaches : Reaches react (ofMarkup url markup) s) (alone : s.listeners = [])
    (room : s.dom.size ≤ 1 <<< 32) (el : Handle) (list : NodeId)
    (found : s.document.resolve el = .ok list) (tag : s.dom.tag? list = some "select")
    (value : String) (w : σ) :
    let first := firstOption s.dom list value
    let again := s.dom.firstCarrier list value
    ∃ s', ((perform react (Page.select el value).result).run s).run w = ((.ok (), s'), w) ∧
      s'.dom.options list = s.dom.options list ∧
      (∀ o ∈ s.dom.options list,
        s'.document.property? o "selected" = some (.bool (o ∈ first ∨ o ∈ again))) ∧
      s'.document.property? list "value" = some (.text (if first.isSome then value else "")) ∧
      (first = none → again = none) ∧
      (s.dom.isConnected list → ∀ o ∈ first, s.dom.hasAttribute o "value" → again = some o) ∧
      ((∃! o, o ∈ s.dom.options list ∧
        s'.document.property? o "selected" = some (.bool true)) ↔
          first.isSome ∧ ∀ o ∈ again, o ∈ first) ∧
      ∀ n name, n ≠ list → n ∉ s.dom.descendants list →
        (name = "value" → s.dom.tag? n = some "select" → list ∉ s.dom.descendants n) →
          s'.document.property? n name = s.document.property? n name := by
  have sane := reaches.sane acts (sane_ofMarkup url markup)
  have leaves : Leaves react (Page.select el value) s () _ :=
    leaves_select alone sane room found tag value
  obtain ⟨events, ended⟩ := leaves
  let doc : Document := { s.document with dom := chosen s.dom list value, focused := some list }
  have selected {o : NodeId} (mem : o ∈ s.dom.options list) :
      doc.property? o "selected" = some (.bool (IsChosen s.dom list value o)) :=
    selected_chosen rfl mem
  refine ⟨{ s with document := doc, dispatched := events },
    congrArg (fun done => done.run w) ended, (agrees_chosen s.dom list value).options list,
    fun o mem => selected mem, value_chosen rfl tag, ?_,
    fun inside o first => firstCarrier_of_written inside first, ?_, ?_⟩
  · intro none
    refine Option.eq_none_iff_forall_not_mem.mpr fun o again => ?_
    have some : (firstOption s.dom list value).isSome := IsChosen.isSome (.inr again)
    rw [none] at some
    cases some
  · rw [← existsUnique_chosen_iff]
    refine existsUnique_congr fun o => and_congr_right fun mem => ?_
    rw [selected mem]
    simp
  · exact fun n name other outside around =>
      property?_outside sane.forest rfl rfl other outside around

namespace Mixed

/-! The first option has its text as the value, the second one the same value as an attribute. -/

def page : Sandbox Unit :=
  .ofMarkup "https://shop.example/"
    "<select><option>m</option><option value='m'>M</option></select>"

theorem both_selected :
    page.dom.options 1 = [2, 4] ∧ page.dom.optionValue 2 = "m" ∧ page.dom.optionValue 4 = "m" ∧
    ∃ s', ((perform Queried.idle (Page.select (page.handle 1) "m").result).run page).run () =
        ((.ok (), s'), ()) ∧
      s'.document.property? 2 "selected" = some (.bool true) ∧
      s'.document.property? 4 "selected" = some (.bool true) ∧
      s'.document.property? 1 "value" = some (.text "m") ∧
      ¬ ∃! o, o ∈ page.dom.options 1 ∧
        s'.document.property? o "selected" = some (.bool true) := by
  have acts : Acts Queried.idle := fun _ _ _ _ _ => ⟨0, .start⟩
  have options : page.dom.options 1 = [2, 4] := by decide +kernel
  have first : firstOption page.dom 1 "m" = some 2 := by decide +kernel
  have again : page.dom.firstCarrier 1 "m" = some 4 := by decide +kernel
  obtain ⟨s', ended, -, selected, shown, -, -, one, -⟩ :=
    select_chooses Queried.idle acts _ _ page .start rfl (by decide +kernel) (page.handle 1) 1
      (by decide +kernel) (by decide +kernel) "m" ()
  rw [options] at selected one ⊢
  rw [first, again] at selected one
  rw [first] at shown
  refine ⟨rfl, by decide +kernel, by decide +kernel, s', ended, selected 2 (by decide),
    selected 4 (by decide), shown, fun only => ?_⟩
  exact absurd ((one.mp only).2 4 rfl) (by decide)

end Mixed

end BrowserScript.Sandbox
