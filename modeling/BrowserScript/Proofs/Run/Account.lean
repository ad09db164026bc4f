import BrowserScript.Proofs.Run.Record

/-!
The account of a run: what its outcome, the progress it told and the cursor it left say about the
steps that were begun. The record of the run is the evidence, and each part of the account is an
induction over it.
-/

namespace BrowserScript.Run

open Prog

variable {s : Settings} {tree : List Block}

/-! ## What a step shows -/

@[simp] theorem storeEvent?_telling (e : Event) : storeEvent? (telling e) = none := rfl

@[simp] theorem storeEvent?_cursorSet (i : Nat) :
    storeEvent? (cursorSet i) = some ⟨.setCursor i, .ok ()⟩ := rfl

@[simp] theorem told?_telling (e : Event) : told? (telling e) = some e := rfl

@[simp] theorem told?_cursorSet (i : Nat) : told? (cursorSet i) = none := rfl

namespace StepRun

variable {q : StepRun}

theorem Genuine.quiet (h : q.Genuine s tree) : ∀ e ∈ q.transcript, Quiet e.1 :=
  h.ran.asked (asks_step s q.block)

/-- Before its end a step only looks at the stop flag. -/
theorem Genuine.looks (h : q.Genuine s tree) :
    ∀ e ∈ (look false :: q.transcript).filterMap storeEvent?, e.1 = .stopFlag :=
  looks_of_quiet (List.forall_mem_cons.mpr ⟨rfl, h.quiet⟩)

theorem Genuine.index_lt (h : q.Genuine s tree) : q.index < tree.length :=
  (List.getElem?_eq_some_iff.mp h.inTree).choose

/-- A step tells of progress when it is done, and then once. -/
theorem Genuine.progress_whole (h : q.Genuine s tree) (total : Nat) :
    progressOf (q.whole total) = if q.isDone then [(q.index + 1, total)] else [] := by
  have before : progressOf (look false :: q.transcript) = [] :=
    progressOf_quiet (List.forall_mem_cons.mpr ⟨rfl, h.quiet⟩)
  rw [whole, progressOf_append, before, List.nil_append]
  unfold aftermath isDone
  cases q.result <;> simp [progressOf, Event.progress?, performed, logEntry]

/-- The cursor is on a step when it ended, and stays where it was otherwise. -/
theorem Genuine.cursor_whole (h : q.Genuine s tree) {total : Nat} {before after : Store.State}
    (kept : Store.Kept before ((q.whole total).filterMap storeEvent?) after) :
    after.cursor = if q.ended then some q.index else before.cursor := by
  rw [whole, List.filterMap_append] at kept
  obtain ⟨mid, first, last⟩ := Store.kept_append_iff.mp kept
  have same : mid.cursor = before.cursor := first.cursor_of_looks h.looks
  unfold aftermath at last
  unfold ended
  cases result : q.result with
  | done | skipped =>
      simp only [result, List.filterMap_cons, List.filterMap_nil, storeEvent?_telling,
        storeEvent?_cursorSet] at last
      cases last with
      | cons stop rest =>
          cases rest
          rfl
  | failed f | stopped =>
      rw [result] at last
      cases last
      exact same

theorem Genuine.keepsTree (h : q.Genuine s tree) (total : Nat) :
    ∀ e ∈ (q.whole total).filterMap storeEvent?, ∀ blocks, e.1 ≠ .setTree blocks := by
  rw [whole, List.filterMap_append, List.forall_mem_append]
  constructor
  · intro e he blocks setTree
    cases (h.looks e he).symm.trans setTree
  · unfold aftermath
    cases q.result with
    | done | skipped =>
        intro e he blocks setTree
        obtain rfl := List.mem_singleton.mp he
        cases setTree
    | failed f | stopped => exact List.forall_mem_nil _

end StepRun

/-! ## What a record shows -/

/-- How a run from a step on ended after these steps, with what it asked then. -/
inductive Ending (start : Nat) (log : List StepRun) : Outcome → List surroundings.Event → Prop
  | completed : Ending start log .completed []
  | stopSeen : Ending start log (.stopped (start + log.length)) [look true]
  | stoppedWithin {q : StepRun} (last : log.getLast? = some q) (result : q.result = .stopped) :
      Ending start log (.stopped q.index) []
  | aborted {q : StepRun} {f : Failure} (last : log.getLast? = some q)
      (result : q.result = .failed f) : Ending start log (.aborted q.index f) []

theorem Ending.cons {start : Nat} {log : List StepRun} {o : Outcome}
    {last : List surroundings.Event} (h : Ending (start + 1) log o last) {q : StepRun} :
    Ending start (q :: log) o last := by
  cases h with
  | completed => exact .completed
  | stopSeen =>
      rw [Nat.add_assoc, Nat.add_comm 1]
      exact .stopSeen
  | stoppedWithin last result =>
      exact .stoppedWithin (by rw [List.getLast?_cons, last, Option.getD_some]) result
  | aborted last result =>
      exact .aborted (by rw [List.getLast?_cons, last, Option.getD_some]) result

namespace Record

variable {i : Nat} {t : List surroundings.Event} {o : Outcome} {log : List StepRun}

theorem genuine (h : Record s tree i t o log) : ∀ q ∈ log, q.Genuine s tree := by
  induction h with
  | completed | stoppedBefore => simp
  | stoppedWithin genuine | aborted genuine => simpa using genuine
  | next genuine _ _ ih => exact List.forall_mem_cons.mpr ⟨genuine, ih⟩

theorem index_eq (h : Record s tree i t o log) :
    log.map StepRun.index = List.range' i log.length := by
  induction h with
  | completed | stoppedBefore | stoppedWithin | aborted => rfl
  | next _ _ _ ih => rw [List.map_cons, ih, List.length_cons, List.range'_succ]

/-- The transcript is that of the steps begun, and then that of the ending. -/
theorem transcript_eq (h : Record s tree i t o log) :
    ∃ last, t = log.flatMap (·.whole tree.length) ++ last ∧ Ending i log o last := by
  induction h with
  | completed => exact ⟨[], rfl, .completed⟩
  | stoppedBefore => exact ⟨[look true], rfl, .stopSeen⟩
  | stoppedWithin _ result => exact ⟨[], by simp, .stoppedWithin rfl result⟩
  | aborted _ result => exact ⟨[], by simp, .aborted rfl result⟩
  | next _ _ _ ih =>
      obtain ⟨last, rfl, ending⟩ := ih
      exact ⟨last, by simp, ending.cons⟩

theorem reached_le (h : Record s tree i t o log) (start : i ≤ tree.length) :
    i ≤ o.reached tree.length := by
  induction h with
  | completed => exact start
  | stoppedBefore | stoppedWithin | aborted => exact Nat.le_refl _
  | next genuine _ _ ih => exact Nat.le_of_succ_le (ih genuine.index_lt)

/-- Exactly the steps before the one reached ended. -/
theorem ended_eq (h : Record s tree i t o log) :
    (log.filter StepRun.ended).map StepRun.index =
      List.range' i (o.reached tree.length - i) := by
  induction h with
  | completed past => rw [Outcome.reached, Nat.sub_eq_zero_of_le past]; rfl
  | stoppedBefore => rw [Outcome.reached, Nat.sub_self]; rfl
  | stoppedWithin _ result | aborted _ result =>
      simp [Outcome.reached, StepRun.ended, result]
  | @next q t o log genuine ended rest ih =>
      have reached := rest.reached_le genuine.index_lt
      have here : o.reached tree.length - q.index = o.reached tree.length - (q.index + 1) + 1 := by
        omega
      rw [List.filter_cons_of_pos ended, List.map_cons, ih, here, List.range'_succ]

theorem index_le (h : Record s tree i t o log) :
    ∀ q ∈ log, q.index ≤ o.reached tree.length := by
  induction h with
  | completed | stoppedBefore => simp
  | stoppedWithin | aborted => simp [Outcome.reached]
  | next genuine _ rest ih =>
      exact List.forall_mem_cons.mpr ⟨Nat.le_of_succ_le (rest.reached_le genuine.index_lt), ih⟩

/-- A run that is not completed reached a step of the tree. -/
theorem completed_or_lt (h : Record s tree i t o log) :
    o = .completed ∨ i ≤ o.reached tree.length ∧ o.reached tree.length < tree.length := by
  induction h with
  | completed => exact .inl rfl
  | stoppedBefore more => exact .inr ⟨Nat.le_refl _, more⟩
  | stoppedWithin genuine | aborted genuine => exact .inr ⟨Nat.le_refl _, genuine.index_lt⟩
  | next _ _ _ ih => exact ih.imp_right fun ⟨above, below⟩ => ⟨Nat.le_of_succ_le above, below⟩

theorem progress_eq (h : Record s tree i t o log) :
    progressOf t = (log.filter StepRun.isDone).map fun q => (q.index + 1, tree.length) := by
  induction h with
  | completed | stoppedBefore => rfl
  | stoppedWithin genuine result | aborted genuine result =>
      simp [genuine.progress_whole, StepRun.isDone, result]
  | @next q t o log genuine _ _ ih =>
      rw [progressOf_append, genuine.progress_whole, ih]
      cases hq : q.isDone <;> simp [hq]

/-- The cursor is left on the last step that ended. -/
theorem cursor_eq (h : Record s tree i t o log) {before after : Store.State}
    (kept : Store.Kept before (t.filterMap storeEvent?) after) :
    after.cursor = ((log.filter StepRun.ended).map StepRun.index).max?.or before.cursor := by
  induction h generalizing before with
  | completed =>
      cases kept
      rfl
  | stoppedBefore =>
      exact kept.cursor_of_looks (looks_of_quiet (List.forall_mem_singleton.mpr rfl))
  | stoppedWithin genuine result | aborted genuine result =>
      simp [genuine.cursor_whole kept, StepRun.ended, result]
  | @next q t o log genuine ended rest ih =>
      rw [List.filterMap_append] at kept
      obtain ⟨mid, first, others⟩ := Store.kept_append_iff.mp kept
      rw [ih others, genuine.cursor_whole first, if_pos ended, List.filter_cons_of_pos ended,
        List.map_cons, List.max?_cons]
      cases largest : ((log.filter StepRun.ended).map StepRun.index).max? with
      | none => rfl
      | some m =>
          have above : q.index + 1 ≤ m := by
            have among := List.max?_mem largest
            rw [rest.ended_eq, List.mem_range'_1] at among
            exact among.1
          rw [Option.elim_some, Nat.max_eq_right (Nat.le_of_succ_le above)]
          rfl

theorem keepsTree (h : Record s tree i t o log) :
    ∀ e ∈ t.filterMap storeEvent?, ∀ blocks, e.1 ≠ .setTree blocks := by
  induction h with
  | completed => simp
  | stoppedBefore =>
      intro e he blocks setTree
      obtain rfl := List.mem_singleton.mp he
      cases setTree
  | stoppedWithin genuine | aborted genuine => exact genuine.keepsTree tree.length
  | next genuine _ _ ih =>
      rw [List.filterMap_append, List.forall_mem_append]
      exact ⟨genuine.keepsTree tree.length, ih⟩

end Record

/-! ## The account -/

/-- What a run from a step on did, told and left, where these are the steps it began. -/
structure Account (s : Settings) (tree : List Block) (start : Nat)
    (t : List surroundings.Event) (o : Outcome) (log : List StepRun)
    (before after : Store.State) : Prop where
  genuine : ∀ q ∈ log, q.Genuine s tree
  nothingElse : ∃ last, t = log.flatMap (·.whole tree.length) ++ last ∧ Ending start log o last
  inOrder : log.map StepRun.index = List.range' start log.length
  ended : (log.filter StepRun.ended).map StepRun.index =
    List.range' start (o.reached tree.length - start)
  notBeyond : ∀ q ∈ log, q.index ≤ o.reached tree.length
  reached : o = .completed ∨ start ≤ o.reached tree.length ∧ o.reached tree.length < tree.length
  progress : progressOf t =
    (log.filter StepRun.isDone).map fun q => (q.index + 1, tree.length)
  cursor : after.cursor =
    ((log.filter StepRun.ended).map StepRun.index).max?.or before.cursor
  tree : after.tree = before.tree

/-- A run begins with the step it is to begin with, unless the stop flag was set before. -/
theorem Account.head {start : Nat} {t : List surroundings.Event} {o : Outcome}
    {log : List StepRun} {before after : Store.State} (h : Account s tree start t o log before after)
    (more : start < tree.length) :
    (∃ q, log.head? = some q ∧ q.index = start) ∨ t = [look true] ∧ o = .stopped start := by
  cases log with
  | cons q rest => exact .inl ⟨q, rfl, (List.cons.inj h.inOrder).1⟩
  | nil =>
      obtain ⟨last, rfl, ending⟩ := h.nothingElse
      cases ending with
      | completed =>
          have none := congrArg List.length h.ended
          rw [List.length_range', Outcome.reached] at none
          exact absurd none.symm (Nat.sub_ne_zero_of_lt more)
      | stopSeen => exact .inr ⟨rfl, rfl⟩
      | stoppedWithin last | aborted last => cases last

/-- Every run of a tree from a step on, whatever the page answers and whenever the stop flag is
changed, ends with an outcome and has an account. Only the state must not fail. -/
theorem execute_account {start : Nat} {t : List surroundings.Event}
    {r : Except Store.Error Outcome} {before after : Store.State}
    (run : Ran (execute s start tree).run t r)
    (kept : Store.Kept before (t.filterMap storeEvent?) after) :
    ∃ o log, r = .ok o ∧ Account s tree start t o log before after := by
  obtain ⟨e, failed⟩ | ⟨o, log, rfl, record⟩ := topSteps_recorded rfl run
  · exact absurd failed (not_storeFailed kept e)
  · exact ⟨o, log, rfl, {
      genuine := record.genuine
      nothingElse := record.transcript_eq
      inOrder := record.index_eq
      ended := record.ended_eq
      notBeyond := record.index_le
      reached := record.completed_or_lt
      progress := record.progress_eq
      cursor := record.cursor_eq kept
      tree := kept.tree_eq record.keepsTree }⟩

/-! ### A run of every kind of step -/

namespace Sample

def script : List Block := [
  .node { line := 0, code := ["wait", "5"], src := "wait 5", timeout := 0 } [],
  .node { line := 1, code := ["fly"], src := "fly", timeout := 0 } [],
  .node { line := 2, code := ["under", "'a'"], src := "under 'a'", timeout := 0 } [
    .node { line := 3, code := [], src := "b", timeout := 0 } [],
    .node { line := 4, code := [], src := "c", timeout := 0 } []]]

def skipping : Settings := { stepping := { missing := .skip } }

/-- A step is done, one is skipped, and the stop flag is set while the block runs. -/
def transcript : List surroundings.Event := [
  look false, ⟨.inl (.inr (.sleep 5)), ()⟩, telling (.progress 1 3),
  telling (.log 1 "Performed 'wait' on '5'"), cursorSet 0,
  look false, telling (.log 2 "❌ Error: 'fly' on '' failed - Unsupported command: fly"),
  cursorSet 1,
  look false, look false, telling (.log 4 "Performed 'noop' on ''"), look true]

theorem ran : Ran (execute skipping 0 script).run transcript (.ok (.stopped 2)) :=
  .ask _ (.ask _ (.ask _ (.ask _ (.ask _ (.ask _ (.ask _ (.ask _ (.ask _ (.ask _ (.ask _
    (.ask _ (.done _))))))))))))

end Sample

theorem execute_account_stopped_in_block :
    ∃ o log, (.ok (.stopped 2) : Except Store.Error Outcome) = .ok o ∧
      Account Sample.skipping Sample.script 0 Sample.transcript o log
        { cursor := some 7 } { cursor := some 1, stop := true } :=
  execute_account Sample.ran
    (.cons false (.cons false (.cons false (.cons false (.cons false (.cons false (.cons true
      (.nil _))))))))

end BrowserScript.Run
