import BrowserScript.Proofs.Run.Halting

/-!
What can and cannot abort a run. Where failures are skipped nothing does, whatever the commands are
and wherever they stand, and whatever the page answers. Where they are not, it is the command begun
last that failed, and that is no verify statement: a verify statement tells its verdict, with a log
entry that says the same, and then that it was performed.
-/

namespace BrowserScript.Run

open Prog

variable {s : Settings} {c : Command} {v : Verification}

/-! ## What a verify statement tells -/

/-- A marked log entry and the verdict on the statement, with the same message. -/
def announced (c : Command) (found : Verification.Outcome) : List Event := [
  logEntry c ((if found.success then "✅ " else "❌ ") ++ found.message),
  .verdict ⟨c.src, found.success, found.message⟩]

theorem told_of_onPage {t : List surroundings.Event} (h : ∀ e ∈ t, OnPage e.1) :
    t.filterMap told? = [] := by
  rw [List.filterMap_eq_nil_iff]
  rintro ⟨r, x⟩ he
  rcases r with r | q | e
  · rfl
  · rfl
  · exact (h _ he).elim

theorem told_report {found : Verification.Outcome} {t : List surroundings.Event}
    (h : Ran (report c found) t ()) : t.filterMap told? = announced c found := by
  obtain ⟨⟨⟩, u, rfl, hu⟩ := ran_ask_iff.mp h
  obtain ⟨⟨⟩, w, rfl, hw⟩ := ran_ask_iff.mp hu
  obtain ⟨rfl, -⟩ := ran_done_iff.mp hw
  rfl

/-- Whatever the page answers, a verify statement tells one verdict and nothing but that. -/
theorem told_verify {t : List surroundings.Event} (h : Ran (verify s c v) t ()) :
    ∃ found, t.filterMap told? = announced c found := by
  obtain ⟨u, subject, w, rfl, hu, hw⟩ := ran_bind_iff.mp h
  have looked := told_of_onPage (hu.asked (asks_subjectOf s c v))
  rw [List.filterMap_append, looked, List.nil_append]
  cases subject with
  | error locator => exact ⟨_, told_report hw⟩
  | ok el =>
      obtain ⟨u₁, _, u₂, rfl, h₁, h₂⟩ := ran_bind_iff.mp hw
      obtain ⟨u₂, found, u₃, rfl, h₂, h₃⟩ := ran_bind_iff.mp h₂
      have paused := told_of_onPage (h₁.asked (asks_pause _))
      have checked := told_of_onPage (h₂.asked (asks_onPage _))
      rw [List.filterMap_append, List.filterMap_append, paused, checked]
      exact ⟨found, told_report h₃⟩

theorem alone_of_verify (action : c.action = .ok (.verify v)) :
    alone s c = (verify s c v).bind fun _ => .done .done := by
  rw [alone, action]
  rfl

theorem ran_alone_of_verify {w : List surroundings.Event} {res : StepResult}
    (action : c.action = .ok (.verify v)) (h : Ran (alone s c) w res) :
    res = .done ∧ ∃ found, w.filterMap told? = announced c found := by
  rw [alone_of_verify action] at h
  obtain ⟨w, ⟨⟩, _, rfl, hw, last⟩ := ran_bind_iff.mp h
  obtain ⟨rfl, rfl⟩ := ran_done_iff.mp last
  rw [List.append_nil]
  exact ⟨rfl, told_verify hw⟩

theorem not_isHeading_of_verify (action : c.action = .ok (.verify v)) : ¬ c.IsHeading := by
  intro heading
  cases action.symm.trans (Command.action_of_isHeading heading)

/-! ## Verify statements on a walk -/

/-- Before another is begun, a command has told its verdict, and then that it was performed. -/
inductive Reviewed (c : Command) : List Noted → Prop
  | intro {w : List surroundings.Event} {found : Verification.Outcome} {n : List Noted}
      (told : w.filterMap told? = announced c found) (reported : Reported c n) :
      Reviewed c (w.map unnoted ++ n)

theorem begun_suffix_unnoted_cons_iff {n after : List Noted} {e : surroundings.Event} :
    begun c :: after <:+ unnoted e :: n ↔ begun c :: after <:+ n := by
  rw [List.suffix_cons_iff, or_iff_right]
  nofun

theorem begun_suffix_unnoted_append_iff {n after : List Noted} {w : List surroundings.Event} :
    begun c :: after <:+ w.map unnoted ++ n ↔ begun c :: after <:+ n := by
  induction w with
  | nil => rfl
  | cons e w ih => rw [List.map_cons, List.cons_append, begun_suffix_unnoted_cons_iff, ih]

theorem Walk.reviewed {todo : List Command} {n after : List Noted}
    {r : Except Store.Error StepResult} (h : Walk s todo n r)
    (action : c.action = .ok (.verify v)) (here : begun c :: after <:+ n) : Reviewed c after := by
  induction h with
  | ended => cases List.suffix_nil.mp here
  | stopSeen | lost =>
      cases List.suffix_nil.mp (begun_suffix_unnoted_cons_iff.mp here)
  | aside _ _ ih => exact ih (begun_suffix_unnoted_cons_iff.mp here)
  | opened heading _ ih =>
      rw [begun_suffix_unnoted_cons_iff, List.suffix_cons_iff] at here
      obtain same | later := here
      · cases same
        exact absurd heading (not_isHeading_of_verify action)
      · exact ih later
  | acted _ ran _ reported _ ih =>
      rw [begun_suffix_unnoted_cons_iff, List.suffix_cons_iff] at here
      obtain same | later := here
      · cases same
        obtain ⟨rfl, found, told⟩ := ran_alone_of_verify action ran
        exact .intro told (reported rfl)
      · exact ih (begun_suffix_unnoted_append_iff.mp later)
  | failed _ ran =>
      rw [begun_suffix_unnoted_cons_iff, List.suffix_cons_iff] at here
      obtain same | later := here
      · cases same
        cases (ran_alone_of_verify action ran).1
      · rw [← List.append_nil (List.map ..), begun_suffix_unnoted_append_iff] at later
        cases List.suffix_nil.mp later

/-! ## Runs -/

/-- What a run that has ended like this aborted for, and that it told its verdicts, as what it noted
and what others heard of it show. -/
structure Judged (s : Settings) (n : List Noted) (o : Outcome) : Prop where
  aborted : ∀ i f, o = .aborted i f → ¬ skips s ∧
    ∃ c, InProgress s c (.failed f) n [] ∧ ∀ v, c.action ≠ .ok (.verify v)
  reviewed : ∀ c v after, c.action = .ok (.verify v) → begun c :: after <:+ n → Reviewed c after

/-- However deep the commands are nested, whatever they are and whatever the page answers: a run
whose state does not fail has an outcome. It is not aborted where failures are skipped, and never by
a verify statement that can be read; such a statement tells one verdict each time it is begun. -/
theorem execute_verdicts {start : Nat} {tree : List Block} {t : List surroundings.Event}
    {r : Except Store.Error Outcome} (h : Ran (execute s start tree).run t r)
    (answers : ∀ e, ¬ StoreFailed t e) :
    ∃ o n, r = .ok o ∧ (Ran (notedRun s start tree) n r ∧ heard n = t) ∧ Judged s n o := by
  have noted := h
  rw [← erase_notedRun] at noted
  obtain ⟨n, ran, rfl⟩ := ran_erase_iff.mp noted
  have walk := walk_notedTopSteps ran
  obtain ⟨e, failed⟩ | ⟨o, _, rfl, -⟩ := topSteps_recorded rfl h
  · exact absurd failed (answers e)
  refine ⟨o, n, rfl, ⟨ran, rfl⟩, ?_, fun c v after action => walk.reviewed action⟩
  rintro i f rfl
  have ended := walk.halts (List.append_nil n) (by simp) (by simp)
  cases ended.ending with
  | @failed c f keeps last =>
      refine ⟨keeps, c, last, fun v action => ?_⟩
      obtain ⟨w, alone⟩ := last.ran
      cases (ran_alone_of_verify action alone).1

/-! ### A verdict in a block of a run that is aborted behind it -/

namespace Sample

def titled : Command :=
  { line := 1, code := ["verify", "'Home'"], src := "verify title 'Home'", timeout := 5
    verifyType := some .title }

def verifying : List Block := [
  .node { line := 0, code := ["under", "'a'"], src := "under 'a'", timeout := 0 } [
    .node titled []],
  .node { line := 2, code := ["fly"], src := "fly", timeout := 0 } []]

/-- The page does not answer when it is asked for its title. -/
def untitled : List surroundings.Event := [
  look false, look false, ⟨.inl (.inr (.sleep 5)), ()⟩,
  ⟨.inl (.inl .title), .error (.backend "gone")⟩,
  telling (.log 2 "❌ Verification failed: Page backend error: gone"),
  telling (.verdict ⟨"verify title 'Home'", false,
    "Verification failed: Page backend error: gone"⟩),
  telling (.log 2 "Performed 'verify' on 'Home'"), telling (.progress 1 2),
  telling (.log 1 "Performed 'under' on 'a'"), cursorSet 0,
  look false, telling (.log 3 "❌ Error: 'fly' on '' failed - Unsupported command: fly")]

theorem untitled_ran :
    Ran (execute {} 0 verifying).run untitled (.ok (.aborted 1 (.unsupported "fly"))) :=
  .ask _ (.ask _ (.ask _ (.ask _ (.ask _ (.ask _ (.ask _ (.ask _ (.ask _ (.ask _ (.ask _
    (.ask _ (.done _))))))))))))

theorem untitled_answers (e : Store.Error) : ¬ StoreFailed untitled e := by
  intro failed
  obtain ⟨q, mem⟩ := failed.mem
  nomatch mem

end Sample

theorem execute_verdicts_untitled :
    (∀ e, ¬ StoreFailed Sample.untitled e) ∧
    Sample.titled.action = .ok (.verify (.page .title .contains "Home")) ∧
    ∃ o n, (.ok (.aborted 1 (.unsupported "fly")) : Except Store.Error Outcome) = .ok o ∧
      (Ran (notedRun {} 0 Sample.verifying) n (.ok (.aborted 1 (.unsupported "fly"))) ∧
        heard n = Sample.untitled) ∧ Judged {} n o :=
  ⟨Sample.untitled_answers, rfl, execute_verdicts Sample.untitled_ran Sample.untitled_answers⟩

end BrowserScript.Run
