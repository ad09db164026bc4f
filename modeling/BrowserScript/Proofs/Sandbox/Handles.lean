import BrowserScript.Proofs.Sandbox.History

/-!
Handles over time. A handle that was given out names a node for as long as its document is loaded,
attached or not, and nothing afterwards: whoever takes it then refuses it and changes nothing. Main
statement: `handles_over_time`.
-/

namespace BrowserScript.Sandbox

open Dom (NodeId)
open Page (Handle EventTarget Event)

variable {L : Type} {s s' : Sandbox L} {el : Handle} {n m : NodeId} {d : Deed L}

/-! ## Handles that are given out -/

/-- The handles in an answer. -/
def handlesIn : (r : Page.Request) → r.Result → List Handle
  | .xpath .., found => found
  | .all _, found => found
  | .first _, found => found.toList
  | .byId _, found => found.toList
  | _, _ => []

/-- A handle is given out: in an answer, for the focus, for a new element, or with a change. -/
inductive Gives (s : Sandbox L) : Sandbox L → Handle → Prop
  | answer {r : Page.Request} {x : r.Result} {el : Handle} (answered : s.answer r = .ok x)
      (mem : el ∈ handlesIn r x) : Gives s s el
  | focus {el : Handle} (mem : el ∈ s.focused) : Gives s s el
  | added {base el : Handle} {markup : String} {els : List Handle} {s' : Sandbox L}
      (done : s.appendMarkup base markup = .ok (els, s')) (mem : el ∈ els) : Gives s s' el
  | change {d : Deed L} {s' : Sandbox L} {c : Page.Change} (sound : d.Sound s)
      (done : d.apply s = .ok s') (told : s'.changes = s.changes.push c) : Gives s s' c.target

/-- A handle stands for a node of the document. -/
def Stands (s : Sandbox L) (el : Handle) (n : NodeId) : Prop := s.dom.Named n ∧ el = s.handle n

theorem stands_of_resolve (found : s.document.resolve el = .ok n) : s.Stands el n :=
  ⟨named_of_resolve found, handle_of_resolve found⟩

theorem Edited.stands (edited : Edited s s') (stands : s.Stands el n) : s'.Stands el n := by
  obtain ⟨named, rfl⟩ := stands
  refine ⟨edited.edits.named named, ?_⟩
  rw [handle, handle, Document.handle, Document.handle, edited.generation]

theorem Stands.resolve (stands : s.Stands el n) (less : n < 1 <<< 32) :
    s.document.resolve el = .ok n := by
  obtain ⟨named, rfl⟩ := stands
  exact resolve_handle named less

theorem lt_of_resolve {doc : Document} (found : doc.resolve el = .ok n) : n < 1 <<< 32 := by
  obtain ⟨-, rfl⟩ := generation_of_resolve found
  exact Nat.mod_lt _ (by decide)

theorem stale_of_generation {doc : Document} (other : el.id >>> 32 ≠ doc.generation) :
    doc.resolve el = .error (.staleElement el.id) :=
  if_neg fun good => other good.1

theorem named_of_isElement (element : s.dom.isElement n) : s.dom.Named n :=
  ⟨Dom.lt_size_of_isElement element, .inr element⟩

theorem stands_of_mem_handles {ns : List NodeId} (elements : ∀ n ∈ ns, s.dom.isElement n)
    (mem : el ∈ s.handles ns) : ∃ n, s.Stands el n := by
  obtain ⟨n, listed, rfl⟩ := List.mem_map.mp mem
  exact ⟨n, named_of_isElement (elements n listed), rfl⟩

theorem ok_of_bind {α β : Type} {a : Except Page.Error α} {f : α → Except Page.Error β} {x : β}
    (done : a >>= f = .ok x) : ∃ y, a = .ok y ∧ f y = .ok x := by
  cases a with
  | error e => cases done
  | ok y => exact ⟨y, rfl, done⟩

theorem stands_of_select {selector : String} {els : List Handle}
    (found : s.select selector = .ok els) (mem : el ∈ els) : ∃ n, s.Stands el n := by
  obtain ⟨groups, -, found⟩ := ok_of_bind found
  obtain rfl := Except.ok.inj found
  refine stands_of_mem_handles (fun n mem => ?_) mem
  exact Dom.Forest.isElement_of_mem_below (List.mem_filter.mp mem).1

theorem isElement_of_xpath {expression : String} {context : Option NodeId} {ns : List NodeId}
    (found : XPath.select s.dom expression context = .ok ns) (mem : n ∈ ns) :
    s.dom.isElement n := by
  unfold XPath.select at found
  dsimp only at found
  split at found
  · obtain rfl := Except.ok.inj found
    obtain ⟨item, -, kept⟩ := List.mem_filterMap.mp mem
    match item with
    | .node m =>
        obtain ⟨element, own⟩ := Option.ite_none_right_eq_some.mp kept
        exact Option.some.inj own ▸ element
    | .attribute _ _ => cases kept
  · cases found

theorem stands_of_answer {r : Page.Request} {x : r.Result} (answered : s.answer r = .ok x)
    (mem : el ∈ handlesIn r x) : ∃ n, s.Stands el n := by
  cases r with
  | xpath expression context =>
      obtain ⟨base, -, answered⟩ := ok_of_bind (a := context.mapM s.document.resolve) answered
      obtain ⟨ns, found, answered⟩ := ok_of_bind answered
      obtain rfl := Except.ok.inj answered
      exact stands_of_mem_handles (fun n listed => isElement_of_xpath found listed) mem
  | all selector => exact stands_of_select answered mem
  | first selector =>
      obtain ⟨els, found, answered⟩ := ok_of_bind (a := s.select selector) answered
      obtain rfl := Except.ok.inj answered
      exact stands_of_select found (List.mem_of_mem_head? (Option.mem_toList.mp mem))
  | byId id =>
      have answered : Except.ok ((s.dom.byId id).map s.handle) = Except.ok x := answered
      obtain rfl := Except.ok.inj answered
      obtain ⟨n, found, rfl⟩ := Option.map_eq_some_iff.mp (Option.mem_toList.mp mem)
      have listed := List.mem_of_find?_eq_some found
      exact ⟨n, named_of_isElement (Dom.Forest.isElement_of_mem_below listed), rfl⟩
  | _ => cases mem

/-- A deed tells of one change of a node that has a handle, or of none. -/
def Tells (s s' : Sandbox L) : Prop :=
  s'.changes = s.changes ∨ ∃ c n, s'.changes = s.changes.push c ∧ s.Stands c.target n

theorem setText_tells {text : String} (done : s.setText el text = .ok s') : s.Tells s' := by
  obtain ⟨n, found, done⟩ := resolved done
  obtain rfl := Except.ok.inj done
  exact .inr ⟨_, n, rfl, stands_of_resolve found⟩

theorem setAttribute_tells {name value : String} (done : s.setAttribute el name value = .ok s') :
    s.Tells s' := by
  obtain ⟨n, found, done⟩ := resolved done
  obtain rfl := Except.ok.inj done
  exact .inr ⟨_, n, rfl, stands_of_resolve found⟩

theorem removeAttribute_tells {name : String} (done : s.removeAttribute el name = .ok s') :
    s.Tells s' := by
  obtain ⟨n, found, done⟩ := resolved done
  dsimp only at done
  split at done
  · obtain rfl := Except.ok.inj done
    exact .inr ⟨_, n, rfl, stands_of_resolve found⟩
  · obtain rfl := Except.ok.inj done
    exact .inl rfl

theorem remove_tells (f : s.dom.Forest) (done : s.remove el = .ok s') : s.Tells s' := by
  obtain ⟨n, -, done⟩ := resolved done
  split at done
  · obtain rfl := Except.ok.inj done
    exact .inl rfl
  · rename_i p link
    obtain rfl := Except.ok.inj done
    exact .inr ⟨_, p, rfl, f.named_of_parent link, rfl⟩

theorem setProperty_tells {name : String} {value : Page.PropertyValue}
    (done : s.setProperty el name value = .ok s') : s.Tells s' := by
  obtain ⟨_, _, same⟩ | same | same | ⟨-, same⟩ := setProperty_cases s el name value <;>
    rw [same] at done
  · exact setAttribute_tells done
  · exact removeAttribute_tells done
  · exact setText_tells done
  · obtain ⟨n, -, done⟩ := resolved done
    obtain rfl := Except.ok.inj done
    exact .inl rfl

/-- A navigation is not told of, also when it loads another document. -/
theorem untold_navigate {url : String} (done : Deed.apply s (.navigate url) = .ok s') :
    s'.changes = s.changes := by
  have unheard : (Deed.navigate url : Deed L).Unannounced s (.state (some ⟨0⟩) .hidden) :=
    .inr ⟨_, rfl⟩
  exact Deed.mute unheard done

theorem Deed.tells (f : s.dom.Forest) (done : d.apply s = .ok s') : s.Tells s' := by
  cases d with
  | setText => exact setText_tells done
  | setAttribute => exact setAttribute_tells done
  | removeAttribute => exact removeAttribute_tells done
  | appendMarkup =>
      obtain ⟨els, added⟩ := added_of_done done
      obtain ⟨n, found, added⟩ := resolved added
      obtain ⟨-, rfl⟩ := Prod.mk.inj (Except.ok.inj added)
      exact .inr ⟨_, n, rfl, stands_of_resolve found⟩
  | remove => exact remove_tells f done
  | setTitle =>
      obtain rfl := Except.ok.inj done
      exact .inr ⟨_, Dom.root, rfl, ⟨f.root_lt, .inl rfl⟩, rfl⟩
  | setSize =>
      obtain ⟨n, -, done⟩ := resolved done
      obtain rfl := Except.ok.inj done
      exact .inl rfl
  | setProperty => exact setProperty_tells done
  | navigate => exact .inl (untold_navigate done)
  | setUrl | activate | refocus | keep | addRoute | listen =>
      obtain rfl := Except.ok.inj done
      exact .inl rfl

namespace Gives

theorem edited (gives : Gives s s' el) (sane : s.Sane) : Edited s s' := by
  cases gives with
  | answer | focus => exact .refl s
  | added done => exact appendMarkup_edited sane.forest done
  | @change d s' c sound done told =>
      obtain ⟨-, edited⟩ | ⟨loads, -⟩ := Deed.done_cases sane.forest sound done
      · exact edited
      · -- a load is not told of
        cases d with
        | navigate =>
            have size := congrArg Array.size (told.symm.trans (untold_navigate done))
            simp at size
        | _ => cases loads

theorem stands (gives : Gives s s' el) (sane : s.Sane) : ∃ n, s'.Stands el n := by
  have edited := gives.edited sane
  cases gives with
  | answer answered mem => exact stands_of_answer answered mem
  | focus mem =>
      obtain ⟨n, focused, rfl⟩ := Option.map_eq_some_iff.mp mem
      exact ⟨n, sane.focused n focused, rfl⟩
  | added done mem =>
      obtain ⟨n, -, done⟩ := resolved done
      obtain ⟨rfl, rfl⟩ := Prod.mk.inj (Except.ok.inj done)
      exact stands_of_mem_handles (fun n mem => (List.mem_filter.mp mem).2) mem
  | @change d s' c sound done told =>
      obtain same | ⟨c', n, told', stands⟩ := Deed.tells sane.forest done
      · have size := congrArg Array.size (told.symm.trans same)
        simp at size
      · obtain ⟨rfl, -⟩ := Array.push_eq_push.mp (told.symm.trans told')
        exact ⟨n, edited.stands stands⟩

end Gives

/-! ## Handles that are taken -/

/-- A request is about the node of a handle. -/
def Concerns (el : Handle) : Page.Request → Prop
  | .xpath _ context => context = some el
  | .tag own | .text own | .innerText own | .attribute own _ | .property own _
  | .setProperty own _ _ | .visibility own | .isConnected own | .focus own | .blur own => own = el
  | .dispatch target _ => target = .element el
  | .first _ | .all _ | .byId _ | .title | .url | .navigate _ => False

/-- A request reads from the node of a handle. -/
def Reads (el : Handle) : Page.Request → Prop
  | .tag own | .text own | .innerText own | .attribute own _ | .property own _ | .visibility own
  | .isConnected own => own = el
  | _ => False

namespace Deed

/-- A deed is done to the node of a handle. -/
def Takes (el : Handle) : Deed L → Prop
  | .setText own _ | .setAttribute own _ _ | .removeAttribute own _ | .appendMarkup own _
  | .remove own | .setSize own _ _ | .setProperty own _ _ => own = el
  | .setTitle _ | .setUrl _ | .navigate _ | .activate _ | .refocus _ | .keep _ _ | .addRoute _ _
  | .listen _ _ _ => False

/-- A deed takes a node out of its place. -/
def TakesOut (s : Sandbox L) (n : NodeId) : Deed L → Prop
  | .remove el => s.document.resolve el = .ok n
  | .setText el _ => ∃ p, s.document.resolve el = .ok p ∧ n ∈ s.dom.children p
  | .setProperty el name _ =>
    name = "textContent" ∧ ∃ p, s.document.resolve el = .ok p ∧ n ∈ s.dom.children p
  | _ => False

end Deed

section Stale

variable {e : Page.Error} (stale : s.document.resolve el = .error e)
include stale

theorem refused {α : Type} (f : NodeId → Except Page.Error α) :
    (do f (← s.document.resolve el)) = Except.error e := by
  rw [stale]
  rfl

theorem setProperty_stale (name : String) (value : Page.PropertyValue) :
    s.setProperty el name value = .error e := by
  obtain ⟨_, _, same⟩ | same | same | ⟨-, same⟩ := setProperty_cases s el name value <;>
    exact same.trans (refused stale _)

theorem Deed.apply_stale (takes : d.Takes el) : d.apply s = .error e := by
  cases d with
  | setText | setAttribute | removeAttribute | remove | setSize =>
      obtain rfl := takes
      exact refused stale _
  | appendMarkup =>
      obtain rfl := takes
      rw [apply, Sandbox.appendMarkup, refused stale]
      rfl
  | setProperty =>
      obtain rfl := takes
      exact setProperty_stale stale ..
  | _ => cases takes

theorem answer_stale {r : Page.Request} (reading : isReading r) (about : Concerns el r) :
    s.answer r = .error e := by
  cases r with
  | xpath expression context =>
      obtain rfl := about
      show (do
        let context ← (some el).mapM s.document.resolve
        return s.handles (← XPath.select s.dom expression context)) = Except.error e
      simp [stale]
      rfl
  | tag | text | innerText | «attribute» | property | visibility | isConnected =>
      obtain rfl := about
      exact refused stale _
  | setProperty | dispatch | focus | blur => cases reading
  | _ => cases about

section Serve

variable {M : Type → Type} [Monad M] [LawfulMonad M] (react : React L M)

omit stale in
theorem changing_failed {f : Sandbox L → Except Page.Error (Sandbox L)} (failed : f s = .error e) :
    (changing f : Acting L M _).run s = pure (.error e, s) := by
  simp only [changing, StateT.run_bind, StateT.run_get, pure_bind, failed]
  rfl

theorem dispatch_stale (event : Event) :
    (dispatch react (.element el) event).run s = pure (.error e, s) := by
  have path : s.pathOf (.element el) event.bubbles = .error e := refused stale _
  simp only [dispatch, StateT.run_bind, StateT.run_get, pure_bind, path]
  rfl

theorem focus_stale : (focus react el).run s = pure (.error e, s) := by
  simp only [focus, StateT.run_bind, StateT.run_get, pure_bind, stale]
  rfl

theorem blur_stale : (blur react el).run s = pure (.error e, s) := by
  simp only [blur, StateT.run_bind, StateT.run_get, pure_bind, stale]
  rfl

theorem serve_stale {r : Page.Request} (about : Concerns el r) :
    (serve react r).run s = pure ((.error e : Page.signature.Answer r), s) := by
  cases reading : isReading r with
  | true =>
      rw [serve_reading react reading, answer_stale stale reading about]
      rfl
  | false =>
      cases r with
      | setProperty own name value =>
          obtain rfl := about
          exact changing_failed (setProperty_stale stale name value)
      | dispatch target event =>
          obtain rfl := about
          exact dispatch_stale stale react event
      | focus own =>
          obtain rfl := about
          exact focus_stale stale react
      | blur own =>
          obtain rfl := about
          exact blur_stale stale react
      | navigate => cases about
      | _ => cases reading

end Serve

end Stale

theorem answer_node_ok {α : Type} (found : s.document.resolve el = .ok n)
    (f : Document → NodeId → α) :
    (do return f s.document (← s.document.resolve el) : Except Page.Error α) =
      .ok (f s.document n) := by
  rw [found]
  rfl

theorem answer_reads {r : Page.Request} (reads : Reads el r)
    (found : s.document.resolve el = .ok n) : ∃ x, s.answer r = .ok x := by
  cases r with
  | tag own =>
      obtain rfl := reads
      exact ⟨_, answer_node_ok found fun doc n => (doc.dom.tag? n).getD ""⟩
  | text own =>
      obtain rfl := reads
      exact ⟨_, answer_node_ok found fun doc n => doc.dom.textContent n⟩
  | innerText own =>
      obtain rfl := reads
      exact ⟨_, answer_node_ok found fun doc n => doc.dom.innerText n⟩
  | «attribute» own name =>
      obtain rfl := reads
      exact ⟨_, answer_node_ok found fun doc n => doc.dom.attribute? n (Text.asciiLowered name)⟩
  | property own name =>
      obtain rfl := reads
      exact ⟨_, answer_node_ok found fun doc n => doc.property? n name⟩
  | visibility own =>
      obtain rfl := reads
      exact ⟨_, answer_node_ok found fun doc n => doc.dom.computed n⟩
  | isConnected own =>
      obtain rfl := reads
      exact ⟨_, answer_node_ok found fun doc n => doc.dom.isConnected n⟩
  | _ => cases reads

/-! ## Nodes that are taken out -/

theorem setText_takesOut {p : NodeId} {text : String} (f : s.dom.Forest)
    (found : s.document.resolve el = .ok p) (mem : n ∈ s.dom.children p)
    (done : s.setText el text = .ok s') : s'.dom.parent n = none := by
  obtain ⟨q, found', done⟩ := resolved done
  obtain rfl := Except.ok.inj (found.symm.trans found')
  obtain rfl := Except.ok.inj done
  have size := Dom.size_foldl_detach (s.dom.children p) s.dom
  have there : p < ((s.dom.children p).foldl Dom.detach s.dom).size :=
    size ▸ (named_of_resolve found).1
  have old : n ≠ ((s.dom.children p).foldl Dom.detach s.dom).size :=
    size ▸ Nat.ne_of_lt (Dom.lt_size_of_parent ((f.linked p n).mp mem))
  show (((s.dom.children p).foldl Dom.detach s.dom).createText p text).parent n = none
  rw [Dom.createText, Dom.parent_create there, if_neg old]
  exact Dom.parent_foldl_detach mem s.dom

theorem Deed.parent_of_takesOut (f : s.dom.Forest) (out : d.TakesOut s n)
    (done : d.apply s = .ok s') : s'.dom.parent n = none := by
  cases d with
  | remove el =>
      obtain ⟨m, found, done⟩ := resolved done
      obtain rfl := Except.ok.inj (out.symm.trans found)
      split at done
      · rename_i top
        obtain rfl := Except.ok.inj done
        exact top
      · obtain rfl := Except.ok.inj done
        exact (Dom.parent_detach s.dom n n).trans (if_pos rfl)
  | setText =>
      obtain ⟨p, found, mem⟩ := out
      exact setText_takesOut f found mem done
  | setProperty =>
      obtain ⟨rfl, p, found, mem⟩ := out
      exact setText_takesOut f found mem done
  | _ => cases out

/-- An element below a node that was taken out is not connected ever after. -/
theorem not_connected_of_takesOut (sane : s.Sane) (found : s.document.resolve el = .ok n)
    (out : d.TakesOut s m) (top : m ≠ Dom.root) (above : m = n ∨ m ∈ s.dom.ancestors n)
    (sound : d.Sound s) (done : d.apply s = .ok s') {s'' : Sandbox L}
    (later : History s' 0 s'') : s''.answer (.isConnected el) = .ok false := by
  have stays : d.loads s = 0 := by
    cases d with
    | navigate => cases out
    | _ => rfl
  have edited : Edited s s' := (History.one sound done).edited sane stays
  have sane' := edited.sane sane
  have after := later.edited sane' rfl
  have named := named_of_resolve found
  have named' := edited.edits.named named
  have below : Relation.ReflTransGen s.dom.ChildOf n m := by
    rw [Relation.reflTransGen_iff_eq_or_transGen, ← sane.forest.mem_ancestors_iff]
    exact above
  have gone := Deed.parent_of_takesOut sane.forest out done
  have apart := sane.forest.not_connected edited.edits top gone named.1 below
  have still : ¬ s''.dom.Connected n := fun connected =>
    apart (after.edits.connected sane'.forest named'.1 connected)
  have found'' : s''.document.resolve el = .ok n :=
    ((edited.trans after).stands (stands_of_resolve found)).resolve (lt_of_resolve found)
  rw [← (after.sane sane').forest.isConnected_iff, Bool.not_eq_true] at still
  rw [← still]
  exact answer_node_ok found'' fun doc n => doc.dom.isConnected n

theorem eq_iff_of_generation {el' : Handle} {k : Nat} (found : s.document.resolve el = .ok n)
    (found' : s'.document.resolve el' = .ok m)
    (generation : s'.document.generation = s.document.generation + k) :
    el' = el ↔ k = 0 ∧ m = n := by
  constructor
  · rintro rfl
    obtain ⟨upper, lower⟩ := generation_of_resolve found
    obtain ⟨upper', lower'⟩ := generation_of_resolve found'
    refine ⟨?_, lower'.symm.trans lower⟩
    rw [← upper', upper] at generation
    exact Nat.left_eq_add.mp generation
  · rintro ⟨rfl, rfl⟩
    rw [handle_of_resolve found, handle_of_resolve found', Document.handle, Document.handle,
      generation, Nat.add_zero]

/-- A handle that was given out names one node. It differs from every handle that is given out
later for another node or in another document. Once another document is loaded, all that takes it
fails and changes nothing, listeners included; before that it names its element, which can be read
and is not connected from the moment on when it or an ancestor is taken out. -/
theorem handles_over_time (url markup : String) (j : Nat) (s s₁ : Sandbox L) (el : Handle)
    (before : History (ofMarkup url markup) j s) (given : Gives s s₁ el)
    (small : s₁.dom.size < 1 <<< 32) :
    ∃ n, s₁.document.resolve el = .ok n ∧ ∀ k s', History s₁ k s' →
      (∀ s₂ el' m, Gives s' s₂ el' → s₂.document.resolve el' = .ok m →
        (el' = el ↔ k = 0 ∧ m = n)) ∧
      (0 < k →
        (∀ r, Concerns el r → ∀ (σ : Type) (react : React L (StateM σ)) (w : σ),
          ((serve react r).run s').run w = ((.error (.staleElement el.id), s'), w)) ∧
        ∀ d : Deed L, d.Takes el → d.apply s' = .error (.staleElement el.id)) ∧
      (k = 0 →
        s'.document.resolve el = .ok n ∧ s'.dom.tag? n = s₁.dom.tag? n ∧
        (∀ r, Reads el r → ∃ x, s'.answer r = .ok x) ∧
        ∀ (d : Deed L) m s₂, d.TakesOut s' m → m ≠ Dom.root → m = n ∨ m ∈ s'.dom.ancestors n →
          d.Sound s' → d.apply s' = .ok s₂ → ∀ s₃, History s₂ 0 s₃ →
            s₃.answer (.isConnected el) = .ok false) ∧
      ∀ (σ : Type) (react : React L (StateM σ)), Acts react → ∀ (o : Operation L) (w : σ),
        o.Sound s' → ∃ i, History s' i (o.after react s' w) := by
  have sane := before.sane (sane_ofMarkup url markup)
  obtain ⟨n, stands⟩ := given.stands sane
  have less : n < 1 <<< 32 := Nat.lt_trans stands.1.1 small
  have sane₁ := (given.edited sane).sane sane
  have found := stands.resolve less
  refine ⟨n, found, fun k s' later => ⟨?_, ?_, ?_, ?_⟩⟩
  · intro s₂ el' m given' found'
    have generation := (given'.edited (later.sane sane₁)).generation.trans (later.generation sane₁)
    exact eq_iff_of_generation found found' generation
  · intro loaded
    have stale : s'.document.resolve el = .error (.staleElement el.id) := by
      apply stale_of_generation
      rw [(generation_of_resolve found).1, later.generation sane₁]
      exact Nat.ne_of_lt (Nat.lt_add_of_pos_right loaded)
    refine ⟨fun r about σ react w => ?_, fun d takes => d.apply_stale stale takes⟩
    exact congrArg (fun run => run.run w) (serve_stale stale react about)
  · intro same
    have edited := later.edited sane₁ same
    have found' := (edited.stands stands).resolve less
    refine ⟨found', edited.edits.tag stands.1.1, fun r reads => answer_reads reads found', ?_⟩
    intro d m s₂ out top above sound done s₃ later'
    exact not_connected_of_takesOut (later.sane sane₁) found' out top above sound done later'
  · exact fun σ react acts o w sound => o.history acts sound w

theorem Deed.done_of_isOk (good : (d.apply s).isOk) : d.apply s = .ok (s.orSame (d.apply s)) := by
  cases done : d.apply s with
  | error e =>
      rw [done] at good
      cases good
  | ok s' => rfl

namespace Replaced

/-! An item is taken out of its list, then another document is loaded with a like item in the same
place. -/

def markup : String := "<ul><li>tea</li></ul>"

def page : Sandbox Unit :=
  (ofMarkup "https://shop.example/" markup).addRoute "https://shop.example/" markup

def item : Handle := page.handle 2

def removal : Deed Unit := .remove item

def removed : Sandbox Unit := page.orSame (removal.apply page)

def visit : Deed Unit := .navigate "/"

def loaded : Sandbox Unit := removed.orSame (visit.apply removed)

def textOf (s : Sandbox Unit) : Except Page.Error String := s.answer (.text item)

theorem item_replaced :
    History (ofMarkup "https://shop.example/" markup) 0 page ∧ Gives page page item ∧
    page.dom.size < 1 <<< 32 ∧ History page 1 loaded ∧ Gives loaded loaded (loaded.handle 2) ∧
    textOf page = .ok "tea" ∧ textOf removed = .ok "tea" ∧
    removed.answer (.isConnected item) = .ok false ∧
    textOf loaded = .error (.staleElement 2) ∧
    removal.apply loaded = .error (.staleElement 2) ∧ loaded.handle 2 ≠ item := by
  have before : History (ofMarkup "https://shop.example/" markup) 0 page :=
    .one (d := .addRoute "https://shop.example/" markup) trivial rfl
  have found : page.select "li" = .ok [item] := by decide +kernel
  have given : Gives page page item :=
    .answer (r := .all "li") (x := [item]) found (List.mem_singleton_self item)
  have again : loaded.select "li" = .ok [loaded.handle 2] := by decide +kernel
  have given' : Gives loaded loaded (loaded.handle 2) :=
    .answer (r := .all "li") (x := [loaded.handle 2]) again (List.mem_singleton_self _)
  have small : page.dom.size < 1 <<< 32 := by decide +kernel
  have taken : removal.apply page = .ok removed := Deed.done_of_isOk (by decide +kernel)
  have visited : visit.apply removed = .ok loaded := Deed.done_of_isOk (by decide +kernel)
  have loads : visit.loads removed = 1 := by decide +kernel
  have first : History page 0 removed := History.start.step (d := removal) trivial taken
  have later : History page 1 loaded := by
    have both := first.step (d := visit) trivial visited
    rwa [loads] at both
  have out : removal.TakesOut page 2 := by
    show page.document.resolve item = .ok 2
    decide +kernel
  obtain ⟨n, named, always⟩ :=
    handles_over_time "https://shop.example/" markup 0 page page item before given small
  obtain rfl : 2 = n := Except.ok.inj (out.symm.trans named)
  obtain ⟨-, -, attached, -⟩ := always 0 page .start
  obtain ⟨-, -, -, gone⟩ := attached rfl
  have apart := gone removal 2 removed out (by decide) (.inl rfl) trivial taken removed .start
  obtain ⟨unequal, stale, -⟩ := always 1 loaded later
  obtain ⟨-, refused⟩ := stale Nat.zero_lt_one
  have differs : loaded.handle 2 ≠ item := by
    intro same
    obtain ⟨one, -⟩ := (unequal loaded _ 2 given' (by decide +kernel)).mp same
    cases one
  exact ⟨before, given, small, later, given', by decide +kernel, by decide +kernel, apart,
    by decide +kernel, refused removal rfl, differs⟩

end Replaced

end BrowserScript.Sandbox
