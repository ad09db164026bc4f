import BrowserScript.Proofs.Locator.UnderHeading

/-!
What lookups find is part of the document: every question about the whole document is answered with
elements of it, and so is every question from one of these. Main statement: `lookups_attached`, for
all lookups, whatever the page has become by the time the element is found.
-/

namespace BrowserScript.Sandbox

open Dom (NodeId)
open Page (Handle Access)
open Locator

variable {L σ : Type} {s : Sandbox L} {el : Handle}

/-! ## Looks -/

section Looks

variable {α β : Type} {P : α → Prop} {Q : β → Prop} {a : Access α} {f : α → Access β}

/-- An access that only looks: it leaves the sandbox as it is, and what it comes to is of some
kind. -/
structure Looks (s : Sandbox L) (P : α → Prop) (a : Access α) : Prop where
  keeps : ∀ {m : Type → Type} [Monad m] [LawfulMonad m] (react : React L m),
    (perform react a.run).run s = pure (s.eval a, s)
  finds : ∀ x, s.eval a = .ok x → P x

namespace Looks

theorem pure {x : α} (here : P x) : s.Looks P (Pure.pure x) where
  keeps _ := rfl
  finds := by
    rintro _ ⟨⟩
    exact here

theorem ask {r : Page.Request} {P : r.Result → Prop} (reads : isReading r)
    (answered : ∀ x, s.answer r = Except.ok x → P x) : s.Looks P (Page.ask r) where
  keeps react := perform_reading react (q := (Page.ask r).run) ⟨reads, fun _ => trivial⟩ s
  finds := answered

theorem bind (first : s.Looks P a) (next : ∀ x, P x → s.Looks Q (f x)) : s.Looks Q (a >>= f) where
  keeps react := by
    rw [Prog.run_bind_eq, perform_bind, first.keeps, pure_bind, eval_bind]
    cases came : s.eval a with
    | error e => rfl
    | ok x => exact (next x (first.finds x came)).keeps react
  finds y ended := by
    rw [eval_bind] at ended
    cases came : s.eval a with
    | error e =>
        rw [came] at ended
        cases ended
    | ok x =>
        rw [came] at ended
        exact (next x (first.finds x came)).finds y ended

theorem orElse {default : α} (first : s.Looks P a) (other : P default) :
    s.Looks P (a.orElse default) := by
  have ended : s.eval (a.orElse default) = .ok ((s.eval a).toOption.getD default) :=
    Access.given_orElse a default
  constructor
  · intro m _ _ react
    rw [ended]
    refine (perform_bind react a.run _ s).trans ?_
    rw [first.keeps, pure_bind]
    cases s.eval a <;> rfl
  · intro x found
    rw [ended] at found
    obtain rfl := Except.ok.inj found
    cases came : s.eval a with
    | error e => exact other
    | ok x => exact first.finds x came

theorem firstSome {P : β → Prop} {f : α → Access (Option β)} {as : List α}
    (each : ∀ a ∈ as, s.Looks (fun r => ∀ b ∈ r, P b) (f a)) :
    s.Looks (fun r => ∀ b ∈ r, P b) (Locator.firstSome f as) := by
  induction as with
  | nil => exact .pure (by simp)
  | cons a rest ih =>
      obtain ⟨first, each⟩ := List.forall_mem_cons.mp each
      refine first.bind fun r good => ?_
      cases r with
      | some b => exact .pure good
      | none => exact ih each

theorem firstWhere {p : α → Access Bool} {as : List α}
    (tests : ∀ a, s.Looks (fun _ => True) (p a)) (all : ∀ a ∈ as, P a) :
    s.Looks (fun r => ∀ a ∈ r, P a) (Locator.firstWhere p as) := by
  induction as with
  | nil => exact .pure (by simp)
  | cons a rest ih =>
      obtain ⟨here, all⟩ := List.forall_mem_cons.mp all
      refine (tests a).bind fun passed _ => ?_
      cases passed with
      | true => exact .pure (by simpa using here)
      | false => exact ih all

theorem of_found {a : Access (Option Handle)} {P : Handle → Prop}
    (looks : s.Looks (fun r => ∀ el ∈ r, P el) a) (finds : (s.eval a).toOption.join = some el) :
    P el := by
  cases came : s.eval a with
  | error e =>
      rw [came] at finds
      cases finds
  | ok r =>
      rw [came] at finds
      exact looks.finds r came el finds

/-- What is looked up is what an access that only looks comes to. -/
theorem perform_found {m : Type → Type} [Monad m] [LawfulMonad m] (react : React L m)
    {a : Access (Option Handle)} {P : Option Handle → Prop} (looks : s.Looks P a) :
    (perform react (found a)).run s = Pure.pure ((s.eval a).toOption.join, s) := by
  refine (perform_bind react a.run _ s).trans ?_
  rw [looks.keeps, pure_bind]
  cases s.eval a <;> rfl

end Looks

end Looks

/-! ## Questions -/

/-- The handle of an element that is part of the document. -/
def Attached (s : Sandbox L) (el : Handle) : Prop :=
  ∃ n, el = s.handle n ∧ s.dom.isElement n ∧ s.dom.Connected n

theorem attached_handles {ns : List NodeId}
    (good : ∀ n ∈ ns, s.dom.isElement n ∧ s.dom.Connected n) :
    ∀ el ∈ s.handles ns, s.Attached el :=
  List.forall_mem_map.mpr fun n mem => ⟨n, rfl, good n mem⟩

theorem attached_of_below (f : s.dom.Forest) {n : NodeId}
    (mem : n ∈ s.dom.descendantElements Dom.root) : s.dom.isElement n ∧ s.dom.Connected n :=
  ⟨Dom.Forest.isElement_of_mem_below mem, f.connected_of_mem_below .refl mem⟩

section Questions

variable (f : s.dom.Forest)
include f

theorem attached_of_select {selector : String} {els : List Handle}
    (selects : s.select selector = .ok els) : ∀ el ∈ els, s.Attached el := by
  obtain ⟨found, -, done⟩ := ok_of_bind selects
  obtain rfl := Except.ok.inj done
  exact attached_handles fun n mem => attached_of_below f (List.mem_filter.mp mem).1

theorem looks_all (selector : String) :
    s.Looks (fun els => ∀ el ∈ els, s.Attached el) (Page.all selector) :=
  Looks.ask (r := .all selector) (P := fun els : List Handle => ∀ el ∈ els, s.Attached el) rfl
    fun _ selects => attached_of_select f selects

theorem looks_first (selector : String) :
    s.Looks (fun r => ∀ el ∈ r, s.Attached el) (Page.first selector) := by
  refine Looks.ask (r := .first selector)
    (P := fun r : Option Handle => ∀ el ∈ r, s.Attached el) rfl fun r answered => ?_
  obtain ⟨els, selects, done⟩ := ok_of_bind (a := s.select selector) answered
  obtain rfl := Except.ok.inj done
  exact fun el mem => attached_of_select f selects el (List.mem_of_mem_head? mem)

theorem looks_byId (id : String) :
    s.Looks (fun r => ∀ el ∈ r, s.Attached el) (Page.byId id) := by
  refine Looks.ask (r := .byId id) (P := fun r : Option Handle => ∀ el ∈ r, s.Attached el) rfl
    fun r answered => ?_
  obtain rfl := Except.ok.inj answered
  intro el mem
  obtain ⟨n, found, rfl⟩ := Option.map_eq_some_iff.mp mem
  exact ⟨n, rfl, attached_of_below f (List.mem_of_find?_eq_some found)⟩

/-- From the document and from an element of it only elements of it are found. -/
theorem looks_xpath (expression : String) {context : Option Handle}
    (starts : ∀ el ∈ context, s.Attached el) :
    s.Looks (fun els => ∀ el ∈ els, s.Attached el) (Page.xpath expression context) := by
  refine Looks.ask (r := .xpath expression context)
    (P := fun els : List Handle => ∀ el ∈ els, s.Attached el) rfl fun els answered => ?_
  obtain ⟨start, found, selects, rfl, startsAt⟩ := select_of_answer answered
  have inside : s.dom.Connected (start.getD Dom.root) := by
    cases context with
    | none =>
        rw [show start.getD Dom.root = Dom.root from startsAt]
        exact .refl
    | some el =>
        obtain ⟨n, rfl, -, connected⟩ := starts el rfl
        rwa [handle_injective (handle_of_resolve startsAt)] at connected
  refine attached_handles fun n mem => ?_
  obtain ⟨element, within⟩ := (XPath.select_found f selects).1 n mem
  rw [f.treeOf_of_connected inside, or_self, f.mem_document_iff] at within
  exact ⟨element, within⟩

/-- The first result of an expression. -/
theorem looks_head (expression : String) (context : Option Handle)
    (starts : ∀ el ∈ context, s.Attached el) :
    s.Looks (fun r => ∀ el ∈ r, s.Attached el) (do
      return (← Page.xpath expression context).head?) :=
  (looks_xpath f expression starts).bind fun _ all =>
    .pure fun el mem => all el (List.mem_of_mem_head? mem)

omit f in
theorem looks_trimmedText (el : Handle) : s.Looks (fun _ => True) (trimmedText el) :=
  (Looks.ask (r := .text el) (P := fun _ => True) rfl fun _ _ => trivial).bind fun _ _ =>
    .pure trivial

omit f in
theorem looks_labelledId (el : Handle) : s.Looks (fun _ => True) (labelledId el) :=
  (Looks.ask (r := .attribute el "for") (P := fun _ => True) rfl fun _ _ => trivial).bind
    fun _ _ => .pure trivial

omit f in
theorem looks_text (p : String → Bool) (el : Handle) :
    s.Looks (fun _ => True) (do return p (← trimmedText el)) :=
  (looks_trimmedText el).bind fun _ _ => .pure trivial

/-! ## Lookups -/

theorem looks_buttonWhere (p : String → Bool) :
    s.Looks (fun r => ∀ el ∈ r, s.Attached el) (buttonWhere p) :=
  (looks_all f _).bind fun _ all => .firstWhere (looks_text p) all

theorem looks_byLabel (description : String) :
    s.Looks (fun r => ∀ el ∈ r, s.Attached el) (byLabel description) := by
  refine (looks_all f _).bind fun labels all => ?_
  refine (Looks.firstWhere (looks_text (Text.occursIn description)) all).bind fun label good => ?_
  cases label with
  | none => exact .pure good
  | some label =>
      refine (looks_labelledId label).bind fun id _ => ?_
      cases id with
      | none => exact .pure good
      | some id => exact looks_byId f id

theorem looks_attempt (description : String) :
    s.Looks (fun r => ∀ el ∈ r, s.Attached el) (attempt description) := by
  have nothing : ∀ el ∈ (none : Option Handle), s.Attached el := by simp
  unfold attempt
  extract_lets +lift afterwards
  have looks (byPath : Option Handle) (good : ∀ el ∈ byPath, s.Attached el) :
      s.Looks (fun r => ∀ el ∈ r, s.Attached el) (afterwards byPath) := by
    cases byPath with
    | some el => exact .pure good
    | none =>
        refine ((looks_first f description).orElse nothing).bind fun r good => ?_
        cases r with
        | some el => exact .pure good
        | none =>
            refine (looks_byLabel f description).bind fun r good => ?_
            cases r with
            | some el => exact .pure good
            | none => exact looks_buttonWhere f _
  split
  · refine (looks_xpath f description nothing).bind fun els all => looks els.head? fun _ mem => ?_
    exact all _ (List.mem_of_mem_head? mem)
  · exact looks none nothing

theorem looks_labelTarget (needle : String) :
    s.Looks (fun r => ∀ el ∈ r, s.Attached el) (labelTarget needle) := by
  refine (looks_all f _).bind fun labels all => .firstSome fun label mem => ?_
  have control := looks_head f controls (some label) (by simpa using all label mem)
  refine (looks_trimmedText label).bind fun text _ => ?_
  split
  · exact .pure (by simp)
  · refine (looks_labelledId label).bind fun id _ => ?_
    cases id with
    | none => exact control
    | some id =>
        refine (looks_byId f id).bind fun r good => ?_
        cases r with
        | some el => exact .pure good
        | none => exact control

theorem looks_described (description : String) :
    s.Looks (fun r => ∀ el ∈ r, s.Attached el) (described description) := by
  refine (Looks.firstSome fun needle _ => looks_labelTarget f needle).bind fun r good => ?_
  cases r with
  | some el => exact .pure good
  | none =>
      refine (looks_buttonWhere f _).bind fun r good => ?_
      cases r with
      | some el => exact .pure good
      | none =>
          refine ((looks_all f description).orElse (by simp)).bind fun els all => ?_
          split
          · exact .pure (by simpa using all)
          · exact .pure (by simp)

theorem looks_underHeading (heading target : String) (depth : Nat) :
    s.Looks (fun r => ∀ el ∈ r, s.Attached el) (underHeading heading target depth) := by
  refine (looks_xpath f _ (by simp)).bind fun found all => .firstSome fun top mem => ?_
  have tag : s.Looks (fun _ => True) (Page.tag top) :=
    .ask (r := .tag top) rfl fun _ _ => trivial
  refine tag.bind fun tag _ => ?_
  split
  · exact looks_head f _ (some top) (by simpa using all top mem)
  · exact .pure (by simp)

end Questions

/-! ## While time passes -/

section Timed

variable {m : Type → Type} [Monad m] (react : React L m)

/-- Whoever answers for the clock may change the sandbox while time passes. -/
def serveTimed (react : React L m) (tick : (r : clock.Request) → Acting L m (clock.Answer r)) :
    (r : Page.timed.Request) → Acting L m (Page.timed.Answer r)
  | .inl r => serve react r
  | .inr r => tick r

variable (tick : (r : clock.Request) → Acting L m (clock.Answer r))

/-- Run a program that may wait. -/
def performTimed {α : Type} (p : Prog Page.timed α) : Acting L m α := p.run (serveTimed react tick)

theorem performTimed_page {α : Type} (p : Prog Page.signature α) :
    performTimed react tick (liftM p : Prog Page.timed α) = perform react p := by
  induction p with
  | done a => rfl
  | ask r next ih => exact congrArg (serve react r >>= ·) (funext ih)

variable [LawfulMonad m]

theorem performTimed_bind {α β : Type} (p : Prog Page.timed α) (f : α → Prog Page.timed β)
    (s : Sandbox L) : (performTimed react tick (p.bind f)).run s =
      (performTimed react tick p).run s >>= fun x => (performTimed react tick (f x.1)).run x.2 := by
  have both : performTimed react tick (p.bind f) =
      performTimed react tick p >>= fun a => performTimed react tick (f a) :=
    Prog.run_bind (m := Acting L m) _ p f
  rw [both, StateT.run_bind]

theorem performTimed_sleep (delay : Nat) :
    performTimed react tick (liftM (sleep delay) : Prog Page.timed Unit) = tick (.sleep delay) :=
  bind_pure _

/-- What is found at once ends the search. After a miss it goes on with the sandbox that is there
after the pause. -/
theorem performTimed_findWithin (f : s.dom.Forest) (description : String) (delay attempts : Nat) :
    (performTimed react tick (findWithin description delay (attempts + 1))).run s =
      match (s.eval (attempt description)).toOption.join with
      | some el => pure (some el, s)
      | none => (tick (.sleep delay)).run s >>= fun x =>
          (performTimed react tick (findWithin description delay attempts)).run x.2 := by
  refine (performTimed_bind react tick (liftM (found (attempt description))) _ s).trans ?_
  rw [performTimed_page, (looks_attempt f description).perform_found, pure_bind]
  cases (s.eval (attempt description)).toOption.join with
  | some el => rfl
  | none =>
      refine (performTimed_bind react tick (liftM (sleep delay)) _ s).trans ?_
      rw [performTimed_sleep]
      rfl

end Timed

/-! ## Elements of the document -/

/-- A handle names an element of the document that is loaded: not the document itself, no text, and
nothing that was taken out. -/
structure Current (s : Sandbox L) (el : Handle) (n : NodeId) : Prop where
  handle : el = s.handle n
  element : s.dom.isElement n
  connected : s.dom.Connected n
  inner : n ≠ Dom.root
  textless : s.dom.text? n = none
  resolves : n < 1 <<< 32 → s.document.resolve el = .ok n
  answered : n < 1 <<< 32 → s.answer (.isConnected el) = Except.ok true

theorem Attached.current (f : s.dom.Forest) (attached : s.Attached el) : ∃ n, s.Current el n := by
  obtain ⟨n, rfl, element, connected⟩ := attached
  have named : s.dom.Named n := ⟨f.lt_size_of_connected connected, .inr element⟩
  have resolves (less : n < 1 <<< 32) : s.document.resolve (s.handle n) = .ok n :=
    resolve_handle named less
  refine ⟨n, rfl, element, connected, ?_, f.text?_of_named named, resolves, fun less => ?_⟩
  · rintro rfl
    rw [f.not_isElement_root] at element
    cases element
  · rw [← (f.isConnected_iff n).mpr connected]
    exact answer_node_ok (resolves less) fun doc n => doc.dom.isConnected n

section Searches

variable {react : React L (StateM σ)}
  {tick : (r : clock.Request) → Acting L (StateM σ) (clock.Answer r)} {w : σ}

/-- If a search finds an element, that is one of the document as it is then. -/
def FindsCurrent (search : Acting L (StateM σ) (Option Handle)) (s : Sandbox L) (w : σ) : Prop :=
  ∀ el, ((search.run s).run w).1.1 = some el → ∃ n, ((search.run s).run w).1.2.Current el n

theorem findsCurrent_of_looks (f : s.dom.Forest) {a : Access (Option Handle)}
    (looks : s.Looks (fun r => ∀ el ∈ r, s.Attached el) a) (w : σ) :
    FindsCurrent (perform react (found a)) s w := by
  intro el
  rw [looks.perform_found react]
  exact fun finds => Attached.current f (looks.of_found finds)

/-- A pause leads a sandbox on by operations. -/
def Paced (react : React L (StateM σ))
    (tick : (r : clock.Request) → Acting L (StateM σ) (clock.Answer r)) : Prop :=
  ∀ r s w, Reaches react s (((tick r).run s).run w).1.2

theorem findsCurrent_findWithin (acts : Acts react) (paced : Paced react tick) (sane : s.Sane)
    (description : String) (delay attempts : Nat) (w : σ) :
    FindsCurrent (performTimed react tick (findWithin description delay attempts)) s w := by
  induction attempts generalizing s w with
  | zero => rintro el ⟨⟩
  | succ attempts ih =>
      have looks := looks_attempt sane.forest description
      intro el
      rw [performTimed_findWithin react tick sane.forest]
      cases once : (s.eval (attempt description)).toOption.join with
      | some first =>
          rintro ⟨⟩
          exact Attached.current sane.forest (looks.of_found once)
      | none => exact ih ((paced (.sleep delay) s w).sane acts sane) _ el

theorem findsCurrent_find (acts : Acts react) (paced : Paced react tick) (sane : s.Sane)
    (patience : Patience) (description : String) (w : σ) :
    FindsCurrent (performTimed react tick (find patience description)) s w := by
  unfold find
  split
  · rw [performTimed_page]
    exact findsCurrent_of_looks sane.forest (looks_attempt sane.forest _) w
  · exact findsCurrent_findWithin acts paced sane _ _ _ w

/-- Pauses that leave the sandbox as it is do not help. -/
theorem performTimed_findWithin_still (f : s.dom.Forest)
    (still : ∀ r w, (((tick r).run s).run w).1.2 = s) (description : String) (delay attempts : Nat)
    (w : σ) : (((performTimed react tick (findWithin description delay (attempts + 1))).run
      s).run w).1 = ((s.eval (attempt description)).toOption.join, s) := by
  induction attempts generalizing w with
  | zero =>
      rw [performTimed_findWithin react tick f]
      cases once : (s.eval (attempt description)).toOption.join with
      | some el => rfl
      | none => exact congrArg (none, ·) (still (.sleep delay) w)
  | succ attempts ih =>
      rw [performTimed_findWithin react tick f]
      cases once : (s.eval (attempt description)).toOption.join with
      | some el => rfl
      | none =>
          -- the next attempt misses again
          refine (congrArg (fun s' : Sandbox L => (((performTimed react tick
            (findWithin description delay (attempts + 1))).run s').run _).1)
            (still (.sleep delay) w)).trans ?_
          rw [ih, once]

theorem performTimed_find_still (f : s.dom.Forest)
    (still : ∀ r w, (((tick r).run s).run w).1.2 = s) (patience : Patience) (description : String)
    (w : σ) : (((performTimed react tick (find patience description)).run s).run w).1 =
      (((perform react (found (attempt (bare description)))).run s).run w).1 := by
  have once := (looks_attempt f (bare description)).perform_found react
  unfold find
  split
  · rw [performTimed_page]
  · rename_i some
    obtain ⟨n, more⟩ := Nat.exists_eq_succ_of_ne_zero some
    rw [more, performTimed_findWithin_still f still, once]
    rfl

end Searches

/-- After any operations a lookup finds, if it finds anything, an element of the document that is
then loaded. By description and under a heading nothing changes meanwhile; attempts are made on the
sandbox as each pause leaves it, and when pauses change nothing, all find what the first does. -/
theorem lookups_attached (react : React L (StateM σ)) (acts : Acts react) (url markup : String)
    (s : Sandbox L) (reaches : Reaches react (ofMarkup url markup) s) (w : σ) :
    (∀ description, FindsCurrent (perform react (findDescribed description)) s w ∧
      (((perform react (findDescribed description)).run s).run w).1.2 = s) ∧
    (∀ heading target depth,
      FindsCurrent (perform react (findUnderHeading heading target depth)) s w ∧
        (((perform react (findUnderHeading heading target depth)).run s).run w).1.2 = s) ∧
    ∀ (tick : (r : clock.Request) → Acting L (StateM σ) (clock.Answer r)) (patience : Patience)
      (description : String),
      (Paced react tick → FindsCurrent (performTimed react tick (find patience description)) s w) ∧
      ((∀ r w, (((tick r).run s).run w).1.2 = s) →
        (((performTimed react tick (find patience description)).run s).run w).1 =
          (((perform react (found (attempt (bare description)))).run s).run w).1) := by
  have sane := reaches.sane acts (sane_ofMarkup url markup)
  have f := sane.forest
  refine ⟨fun description => ?_, fun heading target depth => ?_,
    fun tick patience description => ?_⟩
  · have looks := looks_described f (bare description)
    exact ⟨findsCurrent_of_looks f looks w,
      congrArg (fun run : StateM σ _ => (run.run w).1.2) (looks.perform_found react)⟩
  · have looks := looks_underHeading f heading target depth
    exact ⟨findsCurrent_of_looks f looks w,
      congrArg (fun run : StateM σ _ => (run.run w).1.2) (looks.perform_found react)⟩
  · exact ⟨fun paced => findsCurrent_find acts paced sane patience description w,
      fun still => performTimed_find_still f still patience description w⟩

namespace Awaited

/-! A link comes while the page is searched for it. -/

def page : Sandbox Unit := .ofMarkup "https://shop.example/" "<p>Cart</p>"

def link : Operation Unit := .outside (.appendMarkup (page.handle 1) "<a>Pay</a>")

def loading : (r : clock.Request) → Acting Unit (StateM Unit) (clock.Answer r)
  | .sleep _ => modify fun s => link.after Queried.idle s ()
  | .now => pure (0 : Nat)

def search : Acting Unit (StateM Unit) (Option Handle) :=
  performTimed Queried.idle loading (find ⟨3, 10⟩ "'Pay'")

/-- The link is found by the second attempt, where the first on the same page finds nothing. -/
theorem link_found :
    Acts Queried.idle ∧ Reaches Queried.idle page page ∧ Paced Queried.idle loading ∧
    (((perform Queried.idle (found (attempt (bare "'Pay'")))).run page).run ()).1.1 = none ∧
    ((search.run page).run ()).1.1 = some (page.handle 3) ∧
    ((search.run page).run ()).1.2.Current (page.handle 3) 3 := by
  have acts : Acts Queried.idle := fun _ _ _ _ _ => ⟨0, .start⟩
  have paced : Paced Queried.idle loading := by
    intro r s w
    cases r with
    | sleep => exact .step .start link trivial ()
    | now => exact .start
  have finds : ((search.run page).run ()).1.1 = some (page.handle 3) := by decide +kernel
  obtain ⟨-, -, within⟩ := lookups_attached Queried.idle acts _ _ page .start ()
  obtain ⟨n, current⟩ := (within loading ⟨3, 10⟩ "'Pay'").1 paced _ finds
  have same : ((search.run page).run ()).1.2.handle 3 = page.handle 3 := by decide +kernel
  obtain rfl : 3 = n := handle_injective (same.trans current.handle)
  exact ⟨acts, .start, paced, by decide +kernel, finds, current⟩

end Awaited

end BrowserScript.Sandbox
