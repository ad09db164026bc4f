import BrowserScript.Proofs.Run.Account
import BrowserScript.Proofs.Run.Walk

/-!
Stopping a run. Once the stop flag is set and stays set, the command that is in progress may go on
and no other is begun, at whatever depth they stand. The run is completed if all commands that it
comes to had been begun; otherwise it is stopped at the first top-level step that did not end,
unless the command in progress fails.
-/

namespace BrowserScript.Run

open Prog

variable {s : Settings} {c : Command} {todo : List Command} {n m : List Noted}
  {r : Except Store.Error StepResult}

/-- How a walk ends of which this was noted and heard before the stop flag was set, and that since
then. -/
inductive Halt (s : Settings) (todo : List Command) (n m : List Noted) :
    Except Store.Error StepResult → Prop
  | allBegun (all : notes n = todo) : Halt s todo n m (.ok .done)
  | stopped {c : Command} {more : List Command} (next : todo = notes n ++ c :: more) :
      Halt s todo n m (.ok .stopped)
  | failed {c : Command} {f : Failure} (keeps : ¬ skips s) (last : InProgress s c (.failed f) n m) :
      Halt s todo n m (.ok (.failed f))
  | stateFailed {e : Store.Error} (failed : StoreFailed (heard (n ++ m)) e) :
      Halt s todo n m (.error e)

/-- What a walk does once the stop flag is set. -/
structure Halts (s : Settings) (todo : List Command) (n m : List Noted)
    (r : Except Store.Error StepResult) : Prop where
  noneBegun : notes m = []
  /-- Only the command in progress acts on the page. -/
  within : ∃ w x, m = w ++ x ∧ (w = [] ∨ ∃ c res, InProgress s c res n w) ∧
    ∀ e ∈ heard x, ¬ OnPage e.1
  ending : Halt s todo n m r

/-- Earlier events change nothing of this. -/
theorem Halts.after (h : Halts s todo n m r) (p : List Noted) :
    Halts s (notes p ++ todo) (p ++ n) m r where
  noneBegun := h.noneBegun
  within := by
    obtain ⟨w, x, rfl, own, others⟩ := h.within
    refine ⟨w, x, rfl, own.imp_right ?_, others⟩
    rintro ⟨c, res, progress⟩
    exact ⟨c, res, progress.append_left p⟩
  ending := by
    cases h.ending with
    | allBegun all => exact .allBegun (by rw [notes_append, all])
    | stopped next => exact .stopped (by rw [next, notes_append, List.append_assoc])
    | failed keeps last => exact .failed keeps (last.append_left p)
    | stateFailed failed =>
        refine .stateFailed ?_
        rw [List.append_assoc, heard_append]
        exact failed.append_right _

/-! ## Walks under a stop flag that is set -/

/-- Without a look that finds the stop flag unset, a walk does not come to another command. -/
theorem Walk.unlooked (h : Walk s todo m r) (set : unnoted (look false) ∉ m) (n w : List Noted) :
    notes m = [] ∧ (∀ e ∈ heard m, ¬ OnPage e.1) ∧ Halt s (notes n ++ todo) n (w ++ m) r := by
  induction h generalizing w with
  | ended => exact ⟨rfl, by simp, .allBegun (by rw [List.append_nil])⟩
  | @stopSeen todo more =>
      obtain ⟨c, rest, rfl⟩ := List.exists_cons_of_ne_nil more
      exact ⟨rfl, by simp [look, OnPage], .stopped rfl⟩
  | lost q e =>
      refine ⟨rfl, by simp [OnPage], .stateFailed ?_⟩
      rw [← List.append_assoc, heard_append]
      exact (storeFailed_head q e []).append_right _
  | @aside e todo m r between rest ih =>
      obtain ⟨noneBegun, others, ending⟩ := ih (fun h => set (.tail _ h)) (w ++ [unnoted e])
      rw [List.append_assoc] at ending
      exact ⟨noneBegun, List.forall_mem_cons.mpr ⟨between.not_onPage, others⟩, ending⟩
  | opened | acted | failed => exact absurd (.head _) set

theorem Walk.halts_nil (h : Walk s todo m r) (set : unnoted (look false) ∉ m) :
    Halts s todo [] m r :=
  have ⟨noneBegun, others, ending⟩ := h.unlooked set [] []
  { noneBegun, ending, within := ⟨[], m, rfl, .inl rfl, others⟩ }

/-- Where nothing follows the cut, the walk has ended. -/
theorem Halt.halts (ending : Halt s todo n [] r) : Halts s todo n [] r where
  noneBegun := rfl
  within := ⟨[], [], rfl, .inl rfl, by simp⟩
  ending := ending

/-- The cut is not between a look that found the stop flag unset and the command it was for. -/
theorem cut_behind_begun {t : List Noted}
    (eq : n ++ m = unnoted (look false) :: begun c :: t) (set : unnoted (look false) ∉ m)
    (cut : ∀ e ∈ m.head?, noted? e = none) :
    ∃ k, n = unnoted (look false) :: begun c :: k ∧ k ++ m = t := by
  obtain ⟨rfl, rfl⟩ | ⟨n, rfl, second⟩ := List.append_eq_cons_iff.mp eq
  · exact absurd (.head _) set
  obtain ⟨rfl, rfl⟩ | ⟨k, rfl, rest⟩ := List.append_eq_cons_iff.mp second.symm
  · cases cut _ rfl
  · exact ⟨k, rfl, rest.symm⟩

/-- The stop flag is set while a command does what it does alone. -/
theorem halts_within {k w : List surroundings.Event} {res : StepResult}
    (ran : Ran (alone s c) (k ++ w) res) (rest : Walk s todo m r)
    (set : unnoted (look false) ∉ m) :
    Halts s (c :: todo) (unnoted (look false) :: begun c :: k.map unnoted)
      (w.map unnoted ++ m) r := by
  obtain ⟨noneBegun, others, ending⟩ :=
    rest.unlooked set (unnoted (look false) :: begun c :: k.map unnoted) (w.map unnoted)
  rw [notes_unnoted_cons, notes_begun_cons, notes_unnoted] at ending
  exact {
    noneBegun := by rw [notes_append, notes_unnoted, noneBegun, List.append_nil]
    within := ⟨_, m, rfl, .inr ⟨c, res, .intro [unnoted (look false)] ran⟩, others⟩
    ending := ending }

/-- A walk that is cut anywhere begins nothing behind the cut, if no look there finds the stop flag
unset. The cut is moved along the walk until it is at its head or within a command. -/
theorem Walk.halts {t : List Noted} (h : Walk s todo t r) (whole : n ++ m = t)
    (set : unnoted (look false) ∉ m) (cut : ∀ e ∈ m.head?, noted? e = none) :
    Halts s todo n m r := by
  induction h generalizing n with
  | ended =>
      obtain ⟨rfl, rfl⟩ := List.append_eq_nil_iff.mp whole
      exact Walk.ended.halts_nil set
  | @stopSeen todo more =>
      obtain ⟨rfl, rfl⟩ | ⟨rfl, rfl⟩ := List.append_eq_singleton_iff.mp whole
      · exact (Walk.stopSeen more).halts_nil set
      · obtain ⟨c, rest, rfl⟩ := List.exists_cons_of_ne_nil more
        exact Halt.halts (.stopped rfl)
  | @lost todo q e =>
      obtain ⟨rfl, rfl⟩ | ⟨rfl, rfl⟩ := List.append_eq_singleton_iff.mp whole
      · exact (Walk.lost q e).halts_nil set
      · exact Halt.halts (.stateFailed (storeFailed_head q e []))
  | @aside e todo t r between rest ih =>
      obtain ⟨rfl, rfl⟩ | ⟨n, rfl, others⟩ := List.append_eq_cons_iff.mp whole
      · exact (rest.aside between).halts_nil set
      · exact (ih others.symm).after [unnoted e]
  | @opened c todo t r heading rest ih =>
      obtain ⟨k, rfl, others⟩ := cut_behind_begun whole set cut
      exact (ih others).after [unnoted (look false), begun c]
  | @acted c todo w res t r single ran goesOn reported rest ih =>
      obtain ⟨k, rfl, others⟩ := cut_behind_begun whole set cut
      -- The cut is within what the command does alone, or behind it.
      obtain ⟨own, eq, rfl⟩ | ⟨k, rfl, rfl⟩ := List.append_eq_append_iff.mp others
      · obtain ⟨w₁, w₂, rfl, rfl, rfl⟩ := List.map_eq_append_iff.mp eq
        exact halts_within ran rest fun h => set (List.mem_append_right _ h)
      · have later := (ih rfl).after (unnoted (look false) :: begun c :: w.map unnoted)
        rwa [notes_unnoted_cons, notes_begun_cons, notes_unnoted] at later
  | @failed c todo w f single ran =>
      obtain ⟨k, rfl, others⟩ := cut_behind_begun whole set cut
      obtain ⟨w₁, w₂, rfl, rfl, rfl⟩ := List.map_eq_append_iff.mp others.symm
      have own : InProgress s c (.failed f) _ _ := .intro [unnoted (look false)] ran
      exact {
        noneBegun := notes_unnoted w₂
        within := ⟨_, [], (List.append_nil _).symm, .inr ⟨_, _, own⟩, by simp⟩
        ending := .failed (ran.yields (alone_endsAlone s c)) own }

/-! ## Errors of the state -/

theorem asks_alone : Asks Apart (alone s c) := by
  unfold alone
  split
  · exact asks_fail ..
  · exact asks_simple ..

/-- A walk on which the state failed ends with the error. -/
theorem Walk.error_of_mem {q : Store.Request} {e : Store.Error} (h : Walk s todo n r)
    (failed : (⟨.inr (.inl q), .error e⟩ : surroundings.Event) ∈ heard n) : r = .error e := by
  induction h with
  | ended => cases failed
  | stopSeen more => cases List.mem_singleton.mp failed
  | lost q' e' =>
      cases List.mem_singleton.mp failed
      rfl
  | aside between _ ih =>
      rw [heard_unnoted_cons] at failed
      refine ih ((List.mem_cons.mp failed).resolve_left ?_)
      rintro rfl
      exact between.ne_error
  | opened _ _ ih => exact ih ((List.mem_cons.mp failed).resolve_left fun h => nomatch h)
  | acted _ ran _ _ _ ih =>
      rw [heard_unnoted_cons, heard_begun_cons, heard_append, heard_unnoted] at failed
      have among := (List.mem_cons.mp failed).resolve_left fun h => nomatch h
      obtain own | later := List.mem_append.mp among
      · exact (ran.asked asks_alone _ own).elim
      · exact ih later
  | failed _ ran =>
      rw [heard_unnoted_cons, heard_begun_cons, heard_unnoted] at failed
      have own := (List.mem_cons.mp failed).resolve_left fun h => nomatch h
      exact (ran.asked asks_alone _ own).elim

/-! ## Stopped runs -/

/-- The first top-level step that a run did not end, where these are the steps it began. -/
structure FirstLeft (s : Settings) (tree : List Block) (start : Nat)
    (t : List surroundings.Event) (i : Nat) (log : List StepRun) : Prop where
  record : Record s tree start t (.stopped i) log
  ended : (log.filter StepRun.ended).map StepRun.index = List.range' start (i - start)
  inTree : start ≤ i ∧ i < tree.length

/-- What a run does once the stop flag is set and stays set, at whatever moment that is and whatever
the page and the state answer. -/
theorem execute_halts {start : Nat} {tree : List Block} {u v : List surroundings.Event}
    {r : Except Store.Error Outcome} (h : Ran (execute s start tree).run (u ++ v) r)
    (set : look false ∉ v) :
    ∃ n m, (Ran (notedRun s start tree) (n ++ m) r ∧ heard n = u ∧ heard m = v) ∧
      Halts s (Block.reachedAll (tree.drop start)) n m (r.map Outcome.ending) ∧
      ∀ i, r = .ok (.stopped i) → ∃ log, FirstLeft s tree start (u ++ v) i log := by
  have noted := h
  rw [← erase_notedRun] at noted
  obtain ⟨p, ran, same⟩ := ran_erase_iff.mp noted
  obtain ⟨n, m, rfl, rfl, rfl, cut⟩ := exists_cut_of_heard same
  have walk := walk_notedTopSteps ran
  have unset : unnoted (look false) ∉ m := fun h => set (mem_heard_of_unnoted_mem h)
  refine ⟨n, m, ⟨ran, rfl, rfl⟩, walk.halts rfl unset cut, ?_⟩
  rintro i rfl
  obtain ⟨e, failed⟩ | ⟨o, log, result, record⟩ := topSteps_recorded rfl h
  · obtain ⟨q, mem⟩ := failed.mem
    rw [← heard_append] at mem
    cases walk.error_of_mem mem
  · cases result
    exact ⟨log, record, record.ended_eq, record.completed_or_lt.resolve_left (fun h => nomatch h)⟩

/-! ### A stop in the inner of two blocks -/

namespace Sample

def twoDeep : List Block := [
  .node { line := 0, code := ["under", "'a'"], src := "under 'a'", timeout := 0 } [
    .node { line := 1, code := ["under", "'b'"], src := "under 'b'", timeout := 0 } [
      .node { line := 2, code := ["wait", "5"], src := "wait 5", timeout := 0 } []],
    .node { line := 3, code := ["wait", "7"], src := "wait 7", timeout := 0 } []],
  .node { line := 4, code := ["wait", "9"], src := "wait 9", timeout := 0 } []]

def beforeStop : List surroundings.Event := [look false, look false, look false]

def sinceStop : List surroundings.Event := [
  ⟨.inl (.inr (.sleep 5)), ()⟩, telling (.log 3 "Performed 'wait' on '5'"),
  telling (.log 2 "Performed 'under' on 'b'"), look true]

theorem twoDeep_ran :
    Ran (execute {} 0 twoDeep).run (beforeStop ++ sinceStop) (.ok (.stopped 0)) :=
  .ask _ (.ask _ (.ask _ (.ask _ (.ask _ (.ask _ (.ask _ (.done _)))))))

end Sample

theorem execute_halts_two_deep :
    look false ∉ Sample.sinceStop ∧
    ∃ n m, (Ran (notedRun {} 0 Sample.twoDeep) (n ++ m) (.ok (.stopped 0)) ∧
        heard n = Sample.beforeStop ∧ heard m = Sample.sinceStop) ∧
      Halts {} (Block.reachedAll (Sample.twoDeep.drop 0)) n m (.ok .stopped) ∧
      ∀ i, (.ok (.stopped 0) : Except Store.Error Outcome) = .ok (.stopped i) →
        ∃ log, FirstLeft {} Sample.twoDeep 0 (Sample.beforeStop ++ Sample.sinceStop) i log := by
  have set : look false ∉ Sample.sinceStop := by nofun
  exact ⟨set, execute_halts Sample.twoDeep_ran set⟩

end BrowserScript.Run
