import BrowserScript.Proofs.Run.Reach

/-!
The walk of a run through the commands it comes to. A run, headings and blocks and all, is a walk
along a single list: there is a look at the stop flag before each command, a heading is opened, any
other command is done without those below it, and what is told and kept between them does not show
whose block has ended. So what holds of runs of any nesting is shown by induction on a list.
-/

namespace BrowserScript.Run

open Prog

/-- An event of a run that notes the commands it begins. -/
abbrev Noted : Type := (surroundings.noting Command).Event

def begun (c : Command) : Noted := ⟨.inl c, ()⟩

section Events

variable {n : List Noted} {c : Command}

@[simp]
theorem notes_unnoted_cons (e : surroundings.Event) :
    notes (unnoted e :: n : List Noted) = notes n := notes_ask

@[simp]
theorem heard_unnoted_cons (e : surroundings.Event) :
    heard (unnoted e :: n : List Noted) = e :: heard n := rfl

@[simp]
theorem notes_begun_cons : notes (begun c :: n) = c :: notes n := notes_note

@[simp]
theorem heard_begun_cons : heard (begun c :: n) = heard n := rfl

theorem mem_heard_of_unnoted_mem {e : surroundings.Event} (h : unnoted e ∈ n) : e ∈ heard n :=
  List.mem_filterMap.mpr ⟨_, h, rfl⟩

end Events

/-- What a command does without those below it. -/
def alone (s : Settings) (c : Command) : Prog surroundings StepResult :=
  match c.action with
  | .error e => fail s c (.command e)
  | .ok a => simple s c a

/-- The command that was begun last, with what is still to come of it. -/
inductive InProgress (s : Settings) (c : Command) (res : StepResult) :
    List Noted → List Noted → Prop
  | intro (before : List Noted) {k w : List surroundings.Event}
      (ran : Ran (alone s c) (k ++ w) res) :
      InProgress s c res (before ++ begun c :: k.map unnoted) (w.map unnoted)

theorem InProgress.append_left {s : Settings} {c : Command} {res : StepResult} {n m : List Noted}
    (h : InProgress s c res n m) (p : List Noted) :
    InProgress s c res (p ++ n) m := by
  obtain ⟨before, ran⟩ := h
  rw [← List.append_assoc]
  exact .intro (p ++ before) ran

theorem InProgress.ran {s : Settings} {c : Command} {res : StepResult} {n m : List Noted}
    (h : InProgress s c res n m) : ∃ w, Ran (alone s c) w res := by
  obtain ⟨_, ran⟩ := h
  exact ⟨_, ran⟩

section Steps

variable {s : Settings} {c : Command} {body : List Block}

theorem notedStep_of_isHeading (heading : c.IsHeading) :
    notedStep s (.node c body) = .ask (.inl c) fun _ => notedSteps s body := by
  rw [notedStep, Command.action_of_isHeading heading]

theorem notedStep_of_not_isHeading (single : ¬ c.IsHeading) :
    notedStep s (.node c body) =
      .ask (.inl c) fun _ => noteless ((alone s c).bind fun r => .done (.ok r)) := by
  rw [notedStep, alone]
  split
  case h_1 action => rw [action]
  case h_2 action => exact absurd (Command.isHeading_of_action action) single
  case h_3 action => rw [action]

end Steps

/-! ## How commands end that have none below them -/

/-- A command by itself is never stopped, and it fails only where failures are not skipped. -/
def EndsAlone (s : Settings) : StepResult → Prop
  | .done | .skipped => True
  | .failed _ => ¬ skips s
  | .stopped => False

section EndsAlone

variable (s : Settings) (c : Command)

theorem fail_endsAlone (f : Failure) : Yields (EndsAlone s) (fail s c f) := by
  intro _
  show EndsAlone s (if skips s then .skipped else .failed f)
  split
  case isTrue => trivial
  case isFalse keeps => exact keeps

theorem missing_endsAlone (locator : String) : Yields (EndsAlone s) (missing s c locator) := by
  unfold missing
  split
  · exact fun _ => trivial
  · exact fail_endsAlone s c _

theorem acted_endsAlone (a : Page.Access Unit) : Yields (EndsAlone s) (acted s c a) := by
  refine (yields_of_forall (fun _ => trivial) _).bind fun result _ => ?_
  cases result with
  | ok _ => trivial
  | error e => exact fail_endsAlone s c _

theorem actOn_endsAlone (locator : String) (a : Page.Handle → Page.Access Unit) :
    Yields (EndsAlone s) (actOn s c locator a) := by
  refine (yields_of_forall (fun _ => trivial) (resolve s c locator)).bind fun found _ => ?_
  cases found with
  | none => exact missing_endsAlone s c locator
  | some el => exact fun _ => acted_endsAlone ..

theorem actOnPage_endsAlone (a : Page.Access Unit) : Yields (EndsAlone s) (actOnPage s c a) :=
  fun _ => acted_endsAlone s c a

theorem simple_endsAlone (a : Action) : Yields (EndsAlone s) (simple s c a) := by
  cases a with
  | noop | under _ => trivial
  | wait ms => exact fun _ => trivial
  | navigate url => exact actOnPage_endsAlone s c _
  | press key locator =>
      cases locator with
      | none => exact actOnPage_endsAlone s c _
      | some locator => exact actOn_endsAlone s c _ _
  | verify v => exact (yields_of_forall (fun _ => trivial) (verify s c v)).bind fun _ _ => trivial
  | unsupported verb => exact fail_endsAlone s c _
  | click locator | type locator value | select locator value | mouseover locator =>
      exact actOn_endsAlone s c _ _

theorem alone_endsAlone : Yields (EndsAlone s) (alone s c) := by
  unfold alone
  split
  · exact fail_endsAlone s c _
  · exact simple_endsAlone s c _

end EndsAlone

/-! ## Walks -/

/-- That a command is done is told before anything else but the progress. -/
inductive Reported (c : Command) : List Noted → Prop
  | inBlock {n : List Noted} : Reported c (unnoted (telling (performed c)) :: n)
  | topLevel {done total : Nat} {n : List Noted} :
      Reported c (unnoted (telling (.progress done total)) ::
        unnoted (telling (performed c)) :: n)

/-- What is told and kept between commands. -/
inductive Aside : surroundings.Event → Prop
  | told (e : Event) : Aside (telling e)
  | kept (i : Nat) : Aside (cursorSet i)

theorem Aside.not_onPage {e : surroundings.Event} (h : Aside e) : ¬ OnPage e.1 := by
  cases h <;> exact id

theorem Aside.ne_error {q : Store.Request} {e : Store.Error} :
    ¬ Aside ⟨.inr (.inl q), .error e⟩ := by
  rintro ⟨⟩

/-- What is noted and heard on the way through some commands, and how it ends. -/
inductive Walk (s : Settings) : List Command → List Noted → Except Store.Error StepResult → Prop
  | ended : Walk s [] [] (.ok .done)
  | stopSeen {todo : List Command} (more : todo ≠ []) :
      Walk s todo [unnoted (look true)] (.ok .stopped)
  | lost {todo : List Command} (q : Store.Request) (e : Store.Error) :
      Walk s todo [unnoted ⟨.inr (.inl q), .error e⟩] (.error e)
  | aside {e : surroundings.Event} {todo : List Command} {n : List Noted}
      {r : Except Store.Error StepResult} (between : Aside e) (rest : Walk s todo n r) :
      Walk s todo (unnoted e :: n) r
  | opened {c : Command} {todo : List Command} {n : List Noted}
      {r : Except Store.Error StepResult} (heading : c.IsHeading) (rest : Walk s todo n r) :
      Walk s (c :: todo) (unnoted (look false) :: begun c :: n) r
  | acted {c : Command} {todo : List Command} {w : List surroundings.Event} {res : StepResult}
      {n : List Noted} {r : Except Store.Error StepResult} (single : ¬ c.IsHeading)
      (ran : Ran (alone s c) w res) (goesOn : res.GoesOn) (reported : res = .done → Reported c n)
      (rest : Walk s todo n r) :
      Walk s (c :: todo) (unnoted (look false) :: begun c :: (w.map unnoted ++ n)) r
  | failed {c : Command} {todo : List Command} {w : List surroundings.Event} {f : Failure}
      (single : ¬ c.IsHeading) (ran : Ran (alone s c) w (.failed f)) :
      Walk s (c :: todo) (unnoted (look false) :: begun c :: w.map unnoted) (.ok (.failed f))

/-- What can come after a part of a run that has ended like this. -/
inductive Follows (s : Settings) (told : List Noted → Prop) :
    Except Store.Error StepResult → List Command → List Noted →
      Except Store.Error StepResult → Prop
  | done {todo : List Command} {n : List Noted} {r : Except Store.Error StepResult}
      (reported : told n) (rest : Walk s todo n r) : Follows s told (.ok .done) todo n r
  | skipped {todo : List Command} {n : List Noted} {r : Except Store.Error StepResult}
      (rest : Walk s todo n r) : Follows s told (.ok .skipped) todo n r
  | nothing {todo : List Command} {r : Except Store.Error StepResult}
      (last : ∀ res, r = .ok res → ¬ res.GoesOn) : Follows s told r todo [] r

/-- A part of a run that begins these commands: with what follows it, it is a walk. A step does not
know what comes behind its block, so what follows is left open. -/
def Joins (s : Settings) (here : List Command) (told : List Noted → Prop) (p : List Noted)
    (r : Except Store.Error StepResult) : Prop :=
  ∀ todo n r', Follows s told r todo n r' → Walk s (here ++ todo) (p ++ n) r'

section Joins

variable {s : Settings} {here there : List Command} {told toldNext : List Noted → Prop}
  {p q : List Noted} {r : Except Store.Error StepResult} {res : StepResult}

theorem Follows.imp (weaker : ∀ n, told n → toldNext n) {todo : List Command} {n : List Noted}
    {r' : Except Store.Error StepResult} (h : Follows s told r todo n r') :
    Follows s toldNext r todo n r' := by
  cases h with
  | done reported rest => exact .done (weaker n reported) rest
  | skipped rest => exact .skipped rest
  | nothing last => exact .nothing last

/-- Where a part goes on, the next one follows it. -/
theorem Joins.append (first : Joins s here told p (.ok res)) (goesOn : res.GoesOn)
    (reported : res = .done → ∀ n, told (q ++ n)) (next : Joins s there toldNext q r) :
    Joins s (here ++ there) toldNext (p ++ q) r := by
  intro todo n r' h
  rw [List.append_assoc, List.append_assoc]
  cases res with
  | done => exact first _ _ _ (.done (reported rfl n) (next _ _ _ h))
  | skipped => exact first _ _ _ (.skipped (next _ _ _ h))
  | failed f | stopped => exact goesOn.elim

/-- Where a part does not go on, nothing that was to come is begun. -/
theorem Joins.last (h : Joins s here told p r) (last : ∀ res, r = .ok res → ¬ res.GoesOn) :
    Joins s (here ++ there) toldNext p r := by
  intro todo n r' after
  rw [List.append_assoc]
  cases after with
  | done => exact absurd trivial (last _ rfl)
  | skipped => exact absurd trivial (last _ rfl)
  | nothing _ => exact h _ _ _ (.nothing last)

theorem joins_told (e : Event) (rest : Joins s here told p r) :
    Joins s here told (unnoted (telling e) :: p) r :=
  fun _ _ _ after => .aside (.told e) (rest _ _ _ after)

theorem joins_opened {c : Command} (heading : c.IsHeading)
    (body : Joins s here (fun _ => True) p r) :
    Joins s (c :: here) told (unnoted (look false) :: begun c :: p) r :=
  fun _ _ _ after => .opened heading (body _ _ _ (after.imp fun _ _ => trivial))

theorem joins_alone {c : Command} {w : List surroundings.Event} (single : ¬ c.IsHeading)
    (ran : Ran (alone s c) w res) :
    Joins s [c] (Reported c) (unnoted (look false) :: begun c :: w.map unnoted) (.ok res) := by
  intro todo n r' after
  have ends := ran.yields (alone_endsAlone s c)
  cases res with
  | done =>
      cases after with
      | done reported rest => exact .acted single ran trivial (fun _ => reported) rest
      | nothing last => exact absurd trivial (last _ rfl)
  | skipped =>
      cases after with
      | skipped rest => exact .acted single ran trivial (fun h => nomatch h) rest
      | nothing last => exact absurd trivial (last _ rfl)
  | failed f =>
      cases after with
      | nothing last =>
          rw [List.append_nil]
          exact .failed single ran
  | stopped => exact ends.elim

end Joins

/-! ## Runs are walks -/

section Runs

variable {s : Settings}

mutual

theorem joins_notedStep : ∀ {b : Block} {p : List Noted} {r : Except Store.Error StepResult},
    Ran (notedStep s b) p r →
      Joins s b.reached (Reported b.command) (unnoted (look false) :: p) r
  | .node c body, p, r, h => by
      rw [Block.reached]
      by_cases heading : c.IsHeading
      · rw [notedStep_of_isHeading heading] at h
        obtain ⟨⟨⟩, q, rfl, hq⟩ := ran_ask_iff.mp h
        rw [if_pos heading]
        exact joins_opened heading (joins_notedSteps hq)
      · rw [notedStep_of_not_isHeading heading] at h
        obtain ⟨⟨⟩, q, rfl, hq⟩ := ran_ask_iff.mp h
        obtain ⟨_, hw, rfl⟩ := ran_noteless_iff.mp hq
        obtain ⟨w, res, _, rfl, ran, last⟩ := ran_bind_iff.mp hw
        obtain ⟨rfl, rfl⟩ := ran_done_iff.mp last
        rw [if_neg heading, List.append_nil]
        exact joins_alone heading ran

theorem joins_notedSteps :
    ∀ {bs : List Block} {p : List Noted} {r : Except Store.Error StepResult},
      Ran (notedSteps s bs) p r → Joins s (Block.reachedAll bs) (fun _ => True) p r
  | [], p, r, h => by
      rw [notedSteps] at h
      obtain ⟨rfl, rfl⟩ := ran_done_iff.mp h
      intro todo n r' after
      cases after with
      | done _ rest => exact rest
      | nothing last => exact absurd trivial (last _ rfl)
  | b :: rest, p, r, h => by
      -- A look that finds the flag unset belongs to the step it is for.
      rw [notedSteps] at h
      obtain ⟨stop, v, rfl, hv⟩ := ran_ask_iff.mp h
      obtain ⟨e, rfl, rfl, rfl⟩ | ⟨stop, rfl, hv⟩ := ran_orEnd_iff.mp hv
      · intro todo n r' after
        cases after
        exact .lost .stopFlag e
      cases stop with
      | true =>
          obtain ⟨rfl, rfl⟩ := ran_done_iff.mp hv
          intro todo n r' after
          cases after
          exact .stopSeen (by simp [Block.reachedAll, Block.reached_ne_nil])
      | false =>
          obtain ⟨first, ended, others, rfl, hb, hrest⟩ := ran_bind_iff.mp hv
          have joins := joins_notedStep hb
          obtain ⟨e, rfl, rfl, rfl⟩ | ⟨ended, rfl, hrest⟩ := ran_orEnd_iff.mp hrest
          · rw [List.append_nil]
            exact joins.last fun _ h => nomatch h
          cases ended with
          | done =>
              obtain ⟨⟨⟩, w, rfl, hw⟩ := ran_ask_iff.mp hrest
              exact joins.append trivial (fun _ n => .inBlock) (joins_told _ (joins_notedSteps hw))
          | skipped =>
              exact joins.append trivial (fun h => nomatch h) (joins_notedSteps hrest)
          | failed f | stopped =>
              obtain ⟨rfl, rfl⟩ := ran_done_iff.mp hrest
              rw [List.append_nil]
              refine joins.last fun res h => ?_
              cases h
              exact id

end

/-- How a run ended, without the number of the step. -/
def Outcome.ending : Outcome → StepResult
  | .completed => .done
  | .stopped _ => .stopped
  | .aborted _ f => .failed f

/-- The cursor is kept, or the state fails. -/
theorem walk_cursorSet {i : Nat} {todo : List Command} {p : List Noted}
    {r : Except Store.Error Outcome}
    {rest : Prog (surroundings.noting Command) (Except Store.Error Outcome)}
    (h : Ran (S := surroundings.noting Command)
      (.ask (.inr (.inr (.inl (.setCursor i)))) (orEnd fun _ => rest)) p r)
    (others : ∀ q, Ran rest q r → Walk s todo q (r.map Outcome.ending)) :
    Walk s todo p (r.map Outcome.ending) := by
  obtain ⟨answer, q, rfl, hq⟩ := ran_ask_iff.mp h
  obtain ⟨e, rfl, rfl, rfl⟩ | ⟨⟨⟩, rfl, hq⟩ := ran_orEnd_iff.mp hq
  · exact .lost (.setCursor i) e
  · exact .aside (.kept i) (others q hq)

theorem walk_notedTopSteps {total i : Nat} {bs : List Block} {p : List Noted}
    {r : Except Store.Error Outcome} (h : Ran (notedTopSteps s total i bs) p r) :
    Walk s (Block.reachedAll bs) p (r.map Outcome.ending) := by
  induction bs generalizing i p with
  | nil =>
      obtain ⟨rfl, rfl⟩ := ran_done_iff.mp h
      exact .ended
  | cons b rest ih =>
      rw [notedTopSteps] at h
      rw [Block.reachedAll]
      obtain ⟨stop, v, rfl, hv⟩ := ran_ask_iff.mp h
      obtain ⟨e, rfl, rfl, rfl⟩ | ⟨stop, rfl, hv⟩ := ran_orEnd_iff.mp hv
      · exact .lost .stopFlag e
      cases stop with
      | true =>
          obtain ⟨rfl, rfl⟩ := ran_done_iff.mp hv
          exact .stopSeen (by simp [Block.reached_ne_nil])
      | false =>
          obtain ⟨first, ended, others, rfl, hb, hrest⟩ := ran_bind_iff.mp hv
          have joins := joins_notedStep hb
          obtain ⟨e, rfl, rfl, rfl⟩ | ⟨ended, rfl, hrest⟩ := ran_orEnd_iff.mp hrest
          · exact joins _ _ _ (.nothing fun _ h => nomatch h)
          cases ended with
          | done =>
              obtain ⟨⟨⟩, _, rfl, told⟩ := ran_ask_iff.mp hrest
              obtain ⟨⟨⟩, w, rfl, set⟩ := ran_ask_iff.mp told
              have rest := walk_cursorSet set fun _ => ih
              exact joins _ _ _ (.done .topLevel (.aside (.told _) (.aside (.told _) rest)))
          | skipped => exact joins _ _ _ (.skipped (walk_cursorSet hrest fun _ => ih))
          | failed f | stopped =>
              obtain ⟨rfl, rfl⟩ := ran_done_iff.mp hrest
              refine joins _ _ _ (.nothing fun res h => ?_)
              cases h
              exact id

end Runs

end BrowserScript.Run
