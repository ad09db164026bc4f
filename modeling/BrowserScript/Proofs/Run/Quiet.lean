import BrowserScript.Proofs.Program.Transcript
import BrowserScript.Proofs.Store.Kept
import BrowserScript.Run.Step

/-!
What a single step asks, whatever it is and however deep its blocks are nested: the page, the
time, the stop flag, and its own log entries and verdicts. Progress and the cursor are left to the
run of the top-level steps. A step ends with an error only where the state answered with one.
-/

namespace BrowserScript.Run

open Prog

/-! ## Steps as programs

Each kind of step in terms of its requests and of the steps within it. These are the equations by
which everything about runs is proved. -/

theorem within_self (p : Prog surroundings α) : (p.within : Prog surroundings α) = p := by
  induction p with
  | done a => rfl
  | ask r next ih =>
      rcases r with (r | r) | (r | r) <;> exact congrArg (Prog.ask _) (funext ih)

theorem lift_run (p : Prog surroundings α) :
    (liftM p : Access α).run = p.bind fun a => .done (.ok a) := by
  show (p.within : Prog surroundings α).bind _ = _
  rw [within_self]
  rfl

theorem step_run (s : Settings) (c : Command) (body : List Block) :
    (step s (.node c body)).run =
      match c.action with
      | .error e => (fail s c (.command e)).bind fun r => .done (.ok r)
      | .ok (.under _) => (steps s body).run
      | .ok a => (simple s c a).bind fun r => .done (.ok r) := by
  unfold step
  cases c.action with
  | error e => exact lift_run _
  | ok a =>
      cases a with
      | under heading => rfl
      | _ => exact lift_run _

theorem steps_cons_run (s : Settings) (b : Block) (rest : List Block) :
    (steps s (b :: rest)).run = .ask (.inr (.inl .stopFlag)) (orEnd fun
      | true => .done (.ok .stopped)
      | false => (step s b).run.bind (orEnd fun
        | .done => .ask (.inr (.inr (performed b.command))) fun _ => (steps s rest).run
        | .skipped => (steps s rest).run
        | other => .done (.ok other))) := by
  show Prog.ask _ _ = _
  congr 1
  funext stop
  rcases stop with e | (_ | _)
  · rfl
  · show (step s b).run.bind _ = Prog.bind _ _
    congr 1
    funext ended
    rcases ended with e | (_ | _ | f | _) <;> rfl
  · rfl

theorem topSteps_cons_run (s : Settings) (total i : Nat) (b : Block) (rest : List Block) :
    (topSteps s total i (b :: rest)).run = .ask (.inr (.inl .stopFlag)) (orEnd fun
      | true => .done (.ok (.stopped i))
      | false => (step s b).run.bind (orEnd fun
        | .done =>
          .ask (.inr (.inr (.progress (i + 1) total))) fun _ =>
          .ask (.inr (.inr (performed b.command))) fun _ =>
          .ask (.inr (.inl (.setCursor i))) (orEnd fun _ => (topSteps s total (i + 1) rest).run)
        | .skipped =>
          .ask (.inr (.inl (.setCursor i))) (orEnd fun _ => (topSteps s total (i + 1) rest).run)
        | .failed f => .done (.ok (.aborted i f))
        | .stopped => .done (.ok (.stopped i)))) := by
  show Prog.ask _ _ = _
  congr 1
  funext stop
  rcases stop with e | (_ | _)
  · rfl
  · show (step s b).run.bind _ = Prog.bind _ _
    congr 1
    funext ended
    rcases ended with e | (_ | _ | f | _)
    · rfl
    · show Prog.ask _ _ = Prog.ask _ _
      congr 1
      funext _
      show Prog.ask _ _ = Prog.ask _ _
      congr 1
      funext _
      show Prog.ask _ _ = Prog.ask _ _
      congr 1
      funext kept
      cases kept <;> rfl
    · show Prog.ask _ _ = Prog.ask _ _
      congr 1
      funext kept
      cases kept <;> rfl
    · rfl
    · rfl
  · rfl

/-! ## Requests -/

/-- Requests that say nothing about the progress of a run. -/
def Quiet : surroundings.Request → Prop
  | .inl _ => True
  | .inr (.inl q) => q = .stopFlag
  | .inr (.inr e) => e.progress? = none

/-- Requests to the page and to the clock. -/
def OnPage : surroundings.Request → Prop
  | .inl _ => True
  | .inr _ => False

/-- Quiet requests other than to the state. -/
def Apart : surroundings.Request → Prop
  | .inl _ => True
  | .inr (.inl _) => False
  | .inr (.inr e) => e.progress? = none

theorem apart_of_onPage {p : Prog surroundings α} (h : Asks OnPage p) : Asks Apart p := by
  refine h.mono fun r onPage => ?_
  cases r with
  | inl r => trivial
  | inr r => exact onPage.elim

theorem quiet_of_apart {p : Prog surroundings α} (h : Asks Apart p) : Asks Quiet p := by
  refine h.mono fun r apart => ?_
  rcases r with r | q | e
  · trivial
  · exact apart.elim
  · exact apart

/-! ## Programs without blocks -/

theorem asks_onPage (p : Prog Page.signature α) : Asks OnPage (onPage p) := by
  show Asks OnPage (p.run Signature.Within.ask)
  apply asks_run
  intro r
  exact ⟨trivial, fun _ => trivial⟩

theorem asks_timed (p : Prog Page.timed α) : Asks OnPage (liftM p : Prog surroundings α) := by
  show Asks OnPage (p.run Signature.Within.ask)
  apply asks_run
  rintro (r | r) <;> exact ⟨trivial, fun _ => trivial⟩

theorem asks_pause (ms : Nat) : Asks OnPage (pause ms) := ⟨trivial, fun _ => trivial⟩

theorem asks_tell {e : Event} (h : e.progress? = none) : Asks Apart (tell e) :=
  ⟨h, fun _ => trivial⟩

variable (s : Settings) (c : Command) (locator : String)

theorem asks_lookup (patience : Locator.Patience) :
    Asks OnPage (lookup s patience c locator) := by
  have onWholePage : Asks OnPage (lookup s patience { c with header := none } locator) := by
    refine (asks_timed _).bind fun found => ?_
    cases found with
    | some el => trivial
    | none => exact asks_onPage _
  unfold lookup
  split
  · refine (asks_onPage _).bind fun found => ?_
    cases found with
    | some el => trivial
    | none => exact onWholePage
  · exact onWholePage

theorem asks_lookWhile (remaining : Nat) : Asks OnPage (lookWhile s c locator remaining) := by
  induction remaining using lookWhile.induct s with
  | case1 remaining ih =>
      rw [lookWhile]
      refine (asks_lookup s c locator .once).bind fun found => ?_
      cases found with
      | some el => trivial
      | none =>
          dsimp only
          split
          · trivial
          · next left => exact (asks_pause (pollOf s)).bind fun _ => ih left

theorem asks_resolve : Asks OnPage (resolve s c locator) := by
  unfold resolve
  split
  · exact asks_lookWhile ..
  · exact asks_lookup ..

theorem asks_subjectOf (v : Verification) : Asks OnPage (subjectOf s c v) := by
  unfold subjectOf
  split
  · trivial
  · refine (asks_onPage _).bind fun found => ?_
    cases found <;> trivial
  · refine (asks_lookup ..).bind fun found => ?_
    cases found <;> trivial

theorem asks_fail (f : Failure) : Asks Apart (fail s c f) :=
  (asks_tell rfl).bind fun _ => trivial

theorem asks_missing : Asks Apart (missing s c locator) := by
  unfold missing
  split
  · exact (asks_tell rfl).bind fun _ => trivial
  · exact asks_fail ..

theorem asks_acted (a : Page.Access Unit) : Asks Apart (acted s c a) := by
  refine (apart_of_onPage (asks_onPage _)).bind fun result => ?_
  cases result with
  | ok _ => trivial
  | error e => exact asks_fail ..

theorem asks_actOn (a : Page.Handle → Page.Access Unit) : Asks Apart (actOn s c locator a) := by
  refine (apart_of_onPage (asks_resolve s c locator)).bind fun found => ?_
  cases found with
  | none => exact asks_missing ..
  | some el => exact (apart_of_onPage (asks_pause _)).bind fun _ => asks_acted ..

theorem asks_actOnPage (a : Page.Access Unit) : Asks Apart (actOnPage s c a) :=
  (apart_of_onPage (asks_pause _)).bind fun _ => asks_acted s c a

theorem asks_report (found : Verification.Outcome) : Asks Apart (report c found) :=
  (asks_tell rfl).bind fun _ => asks_tell rfl

theorem asks_verify (v : Verification) : Asks Apart (verify s c v) := by
  refine (apart_of_onPage (asks_subjectOf s c v)).bind fun subject => ?_
  cases subject with
  | error locator => exact asks_report ..
  | ok el =>
      refine (apart_of_onPage ((asks_pause _).bind fun _ => asks_onPage (v.check el))).bind
        fun found => ?_
      exact asks_report ..

theorem asks_simple (a : Action) : Asks Apart (simple s c a) := by
  cases a with
  | noop | under _ => trivial
  | wait ms => exact apart_of_onPage ((asks_pause ms).bind fun _ => trivial)
  | navigate url => exact asks_actOnPage ..
  | press key locator =>
      cases locator with
      | none => exact asks_actOnPage ..
      | some locator => exact asks_actOn ..
  | verify v => exact (asks_verify s c v).bind fun _ => trivial
  | unsupported verb => exact asks_fail ..
  | click locator | type locator value | select locator value | mouseover locator =>
      exact asks_actOn ..

/-! ## Steps with blocks -/

mutual

theorem asks_step : ∀ b : Block, Asks Quiet (step s b).run
  | .node c body => by
      rw [step_run]
      split
      · exact (quiet_of_apart (asks_fail ..)).bind fun _ => trivial
      · exact asks_steps body
      · exact (quiet_of_apart (asks_simple ..)).bind fun _ => trivial

theorem asks_steps : ∀ bs : List Block, Asks Quiet (steps s bs).run
  | [] => trivial
  | b :: rest => by
      rw [steps_cons_run]
      refine ⟨rfl, fun stop => ?_⟩
      rcases stop with e | (_ | _)
      · trivial
      · refine (asks_step b).bind fun ended => ?_
        rcases ended with e | (_ | _ | f | _)
        · trivial
        · exact ⟨rfl, fun _ => asks_steps rest⟩
        · exact asks_steps rest
        · trivial
        · trivial
      · trivial

end

/-! ## What shows of a transcript -/

/-- What the state was asked, with its answer. -/
def storeEvent? : surroundings.Event → Option Store.signature.Event
  | ⟨.inr (.inl q), x⟩ => some ⟨q, x⟩
  | _ => none

/-- What the followers of a run were told. -/
def told? : surroundings.Event → Option Event
  | ⟨.inr (.inr e), _⟩ => some e
  | _ => none

/-- The progress that was told, in order. -/
def progressOf (t : List surroundings.Event) : List (Nat × Nat) :=
  (t.filterMap told?).filterMap Event.progress?

@[simp] theorem progressOf_append (t u : List surroundings.Event) :
    progressOf (t ++ u) = progressOf t ++ progressOf u := by
  simp [progressOf]

theorem progressOf_quiet {t : List surroundings.Event} (h : ∀ e ∈ t, Quiet e.1) :
    progressOf t = [] := by
  simp only [progressOf, List.filterMap_eq_nil_iff]
  intro e he
  obtain ⟨⟨r, x⟩, hr, told⟩ := List.mem_filterMap.mp he
  have quiet := h _ hr
  rcases r with r | q | e'
  · cases told
  · cases told
  · cases told
    exact quiet

theorem looks_of_quiet {t : List surroundings.Event} (h : ∀ e ∈ t, Quiet e.1) :
    ∀ e ∈ t.filterMap storeEvent?, e.1 = .stopFlag := by
  intro e he
  obtain ⟨⟨r, x⟩, hr, asked⟩ := List.mem_filterMap.mp he
  have quiet := h _ hr
  rcases r with r | q | e'
  · cases asked
  · cases asked
    exact quiet
  · cases asked

/-! ## Errors -/

/-- Some answer of the state was this error. -/
def StoreFailed (t : List surroundings.Event) (e : Store.Error) : Prop :=
  ∃ q, (⟨q, .error e⟩ : Store.signature.Event) ∈ t.filterMap storeEvent?

theorem StoreFailed.append_left {t : List surroundings.Event} {e : Store.Error}
    (h : StoreFailed t e) (u : List surroundings.Event) : StoreFailed (t ++ u) e := by
  obtain ⟨q, hq⟩ := h
  exact ⟨q, by simp [List.filterMap_append, hq]⟩

theorem StoreFailed.append_right {u : List surroundings.Event} {e : Store.Error}
    (h : StoreFailed u e) (t : List surroundings.Event) : StoreFailed (t ++ u) e := by
  obtain ⟨q, hq⟩ := h
  exact ⟨q, by simp [List.filterMap_append, hq]⟩

theorem StoreFailed.cons {t : List surroundings.Event} {e : Store.Error} (h : StoreFailed t e)
    (x : surroundings.Event) : StoreFailed (x :: t) e := h.append_right [x]

theorem storeFailed_head (q : Store.Request) (e : Store.Error) (t : List surroundings.Event) :
    StoreFailed (⟨.inr (.inl q), .error e⟩ :: t) e :=
  ⟨q, by simp [storeEvent?]⟩

theorem StoreFailed.mem {t : List surroundings.Event} {e : Store.Error} (h : StoreFailed t e) :
    ∃ q : Store.Request, (⟨.inr (.inl q), .error e⟩ : surroundings.Event) ∈ t := by
  obtain ⟨q, hq⟩ := h
  obtain ⟨⟨r, x⟩, hr, asked⟩ := List.mem_filterMap.mp hq
  rcases r with r | q | e'
  · cases asked
  · cases asked
    exact ⟨q, hr⟩
  · cases asked

theorem not_storeFailed {before after : Store.State} {t : List surroundings.Event}
    (h : Store.Kept before (t.filterMap storeEvent?) after) (e : Store.Error) :
    ¬ StoreFailed t e := by
  rintro ⟨q, hq⟩
  obtain ⟨x, hx⟩ := h.answered _ hq
  cases hx

mutual

theorem step_error {s : Settings} {e : Store.Error} :
    ∀ {b : Block} {t : List surroundings.Event}, Ran (step s b).run t (.error e) → StoreFailed t e
  | .node c body, t, h => by
      rw [step_run] at h
      split at h
      · obtain ⟨_, _, _, -, -, last⟩ := ran_bind_iff.mp h
        cases last
      · exact steps_error h
      · obtain ⟨_, _, _, -, -, last⟩ := ran_bind_iff.mp h
        cases last

theorem steps_error {s : Settings} {e : Store.Error} :
    ∀ {bs : List Block} {t : List surroundings.Event}, Ran (steps s bs).run t (.error e) →
      StoreFailed t e
  | [], t, h => by cases h
  | b :: rest, t, h => by
      rw [steps_cons_run] at h
      obtain ⟨stop, u, rfl, hu⟩ := ran_ask_iff.mp h
      obtain ⟨e', rfl, rfl, he⟩ | ⟨stop, rfl, hu⟩ := ran_orEnd_iff.mp hu
      · cases he
        exact storeFailed_head ..
      · refine StoreFailed.cons ?_ _
        cases stop with
        | true => cases hu
        | false =>
            obtain ⟨t₁, ended, t₂, rfl, h₁, h₂⟩ := ran_bind_iff.mp hu
            obtain ⟨e', rfl, -, he⟩ | ⟨ended, rfl, h₂⟩ := ran_orEnd_iff.mp h₂
            · cases he
              exact (step_error h₁).append_left _
            · cases ended with
              | done =>
                  obtain ⟨_, _, rfl, hr⟩ := ran_ask_iff.mp h₂
                  exact ((steps_error hr).cons _).append_right _
              | skipped => exact (steps_error h₂).append_right _
              | failed f | stopped => cases h₂

end

end BrowserScript.Run
