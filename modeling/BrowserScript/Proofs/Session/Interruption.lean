import BrowserScript.Proofs.Session.Resumption

/-!
Runs that are broken off before their first step, because the state fails or the session dies. The
tree is kept before the old cursor is cleared. In between, the new tree stands beside the cursor of
the run before, and what goes on from there passes over steps that were never run.
-/

namespace BrowserScript.Session

open Prog

/-- A request to the state that leaves the place of the last run alone. -/
def Reads (r : surroundings.Request) : Prop := ∀ q, r = .inl (.inr (.inl q)) → ¬ q.Places

theorem ofStore_reads {q : Store.Request} (reads : ¬ q.Places) :
    Asks Reads (ofStore (Store.ask q)).run := by
  refine ⟨?_, fun x => by cases x <;> trivial⟩
  rintro _ ⟨⟩
  exact reads

theorem parse_reads (s : Settings) (script : String) : Asks Reads (parse s script).run := by
  refine Asks.bind_run (Asks.bind_run ?_ fun url => ?_) fun _ => trivial
  · exact ⟨nofun, fun _ => trivial⟩
  · refine (ofStore_reads id).bind_run fun shared => ?_
    split
    · exact (ofStore_reads id).bind_run fun _ => trivial
    · trivial

/-- How far a program has come that begins with a request to the state. -/
theorem came_ofStore_bind {α : Type} {q : Store.Request} {f : q.Result → Access α}
    {t : List surroundings.Event} (h : Came (ofStore (Store.ask q) >>= f).run t) :
    t = [] ∨ (∃ e, t = [⟨.inl (.inr (.inl q)), .error e⟩]) ∨
      ∃ x u, t = ⟨.inl (.inr (.inl q)), .ok x⟩ :: u ∧ Came (f x).run u := by
  rw [run_bind_eq] at h
  obtain begun | ⟨t₁, a, t₂, rfl, asked, rest⟩ := h.bind_cases
  · cases begun with
    | start => exact .inl rfl
    | ask x rest =>
        cases x with
        | error e =>
            cases rest
            exact .inr (.inl ⟨e, rfl⟩)
        | ok x =>
            cases rest
            exact .inr (.inr ⟨x, [], rfl, .start _⟩)
  · obtain ⟨x, rfl, rfl⟩ := ran_ofStore asked
    cases x with
    | error e =>
        cases rest
        exact .inr (.inl ⟨e, rfl⟩)
    | ok x => exact .inr (.inr ⟨x, t₂, rfl, rest⟩)

/-- No step is begun: a look at the stop flag, before the first step, was the last that happened. -/
def Unbegun (t : List surroundings.Event) : Prop :=
  ∀ before x rest, t = before ++ ⟨.inl (.inr (.inl .stopFlag)), x⟩ :: rest → rest = []

def TreeKept (t : List surroundings.Event) : Prop :=
  ∃ tree, ⟨.inl (.inr (.inl (.setTree tree))), .ok ()⟩ ∈ t

def CursorCleared (t : List surroundings.Event) : Prop :=
  ⟨.inl (.inr (.inl .clearCursor)), .ok ()⟩ ∈ t

/-- A run looks at the stop flag first, if it has a step. -/
theorem execute_run (s : Settings) (start : Nat) (tree : List Block) :
    (∃ r, (execute s start tree).run = .done r) ∨
      ∃ next, (execute s start tree).run = .ask (.inl (.inr (.inl .stopFlag))) next := by
  show (∃ r, (ofRun (Run.topSteps s tree.length start (tree.drop start))).run = .done r) ∨
    ∃ next, (ofRun (Run.topSteps s tree.length start (tree.drop start))).run = .ask _ next
  cases tree.drop start with
  | nil => exact .inl ⟨_, rfl⟩
  | cons b rest => exact .inr ⟨_, rfl⟩

/-- A run that has not begun a step has at most looked at the stop flag. -/
theorem came_execute {s : Settings} {start : Nat} {tree : List Block} {t : List surroundings.Event}
    (h : Came (execute s start tree).run t) (unbegun : Unbegun t) :
    ∀ e ∈ t.filterMap storeEvent?, ¬ e.1.Places := by
  obtain ⟨r, program⟩ | ⟨next, program⟩ := execute_run s start tree <;> rw [program] at h
  · cases h
    simp
  · cases h with
    | start => simp
    | ask x rest =>
        obtain rfl := unbegun [] x _ rfl
        intro e he
        cases List.mem_singleton.mp he
        exact id

theorem Unbegun.append_right {t u : List surroundings.Event} (h : Unbegun (t ++ u)) : Unbegun u :=
  fun before x rest same => h (t ++ before) x rest (by rw [same, List.append_assoc])

theorem storeEvents_read {t : List surroundings.Event} (reads : ∀ e ∈ t, Reads e.1) :
    ∀ e ∈ t.filterMap storeEvent?, ¬ e.1.Places := by
  intro e he
  obtain ⟨ev, mem, is⟩ := List.mem_filterMap.mp he
  obtain ⟨r, x⟩ := ev
  rcases r with (r | r | r | r) | r
  · cases is
  · cases is
    exact reads _ mem r rfl
  · cases is
  · cases is
  · cases is

theorem not_treeKept_of_reads {t : List surroundings.Event} (reads : ∀ e ∈ t, Reads e.1) :
    ¬ TreeKept t := fun ⟨_, mem⟩ => reads _ mem _ rfl trivial

/-- What is left of a run when its tree is kept and the cursor cleared. -/
theorem came_lowering {s : Settings} {start : Nat} {tree : List Block}
    {t : List surroundings.Event}
    (h : Came (ofStore (Store.setStopFlag false) >>= fun _ => execute s start tree).run t)
    (unbegun : Unbegun t) : ∀ e ∈ t.filterMap storeEvent?, ¬ e.1.Places := by
  obtain rfl | ⟨e, rfl⟩ | ⟨x, u, rfl, came⟩ := came_ofStore_bind h
  · simp
  · intro ev mem
    cases List.mem_singleton.mp mem
    exact id
  · intro ev mem
    obtain rfl | mem := List.mem_cons.mp mem
    · exact id
    · exact came_execute came (Unbegun.append_right (t := [_]) unbegun) ev mem

/-- What the requests leave that prepare a run with a tree. -/
theorem left_by_preparation {s : Settings} {start : Nat} {tree : List Block}
    {t : List surroundings.Event} {before left : Store.State}
    (h : Came (ofStore (Store.setTree tree) >>= fun _ => ofStore Store.clearCursor >>= fun _ =>
      ofStore (Store.setStopFlag false) >>= fun _ => execute s start tree).run t)
    (unbegun : Unbegun t) (survives : Store.Survives before (t.filterMap storeEvent?) left) :
    (¬ TreeKept t ∧ left.tree = before.tree ∧ left.cursor = before.cursor) ∨
      TreeKept t ∧ left.tree = tree ∧
        (CursorCleared t ∧ left.cursor = none ∨
          ¬ CursorCleared t ∧ left.cursor = before.cursor) := by
  obtain rfl | ⟨e, rfl⟩ | ⟨⟨⟩, u, rfl, came⟩ := came_ofStore_bind h
  · cases survives
    exact .inl ⟨by simp [TreeKept], rfl, rfl⟩
  · have notKept : ¬ TreeKept [⟨.inl (.inr (.inl (.setTree tree))), .error e⟩] := by
      rintro ⟨_, mem⟩
      cases List.mem_singleton.mp mem
    cases survives with
    | failed stop e rest =>
        cases rest
        exact .inl ⟨notKept, rfl, rfl⟩
  have kept : TreeKept (⟨.inl (.inr (.inl (.setTree tree))), .ok ()⟩ :: u) := ⟨tree, .head _⟩
  cases survives with
  | answered stop survives =>
    refine .inr ⟨kept, ?_⟩
    obtain rfl | ⟨e, rfl⟩ | ⟨⟨⟩, v, rfl, next⟩ := came_ofStore_bind came
    · cases survives
      exact ⟨rfl, .inr ⟨nofun, rfl⟩⟩
    · cases survives with
      | failed stop e rest =>
          cases rest
          exact ⟨rfl, .inr ⟨nofun, rfl⟩⟩
    · cases survives with
      | answered stop survives =>
          have later := came_lowering next (Unbegun.append_right (t := [_, _]) unbegun)
          obtain ⟨sameTree, sameCursor⟩ := survives.places later
          exact ⟨sameTree, .inl ⟨.tail _ (.head _), sameCursor⟩⟩

/-- What a run leaves that has not begun a step: the place of the run before, or its own tree with
the cursor of the run before, or its own tree without a cursor. -/
theorem left_by_unbegun {s : Settings} {script : String} {start : Nat}
    {t : List surroundings.Event} {before left : Store.State}
    (came : Came (runScript s script start).run t) (unbegun : Unbegun t)
    (survives : Store.Survives before (t.filterMap storeEvent?) left) :
    (¬ TreeKept t ∧ left.tree = before.tree ∧ left.cursor = before.cursor) ∨
      TreeKept t ∧ (∃ keywords, left.tree = Script.parse keywords s.commandTimeout script) ∧
        (CursorCleared t ∧ left.cursor = none ∨
          ¬ CursorCleared t ∧ left.cursor = before.cursor) := by
  change Came (parse s script >>= _).run t at came
  rw [run_bind_eq] at came
  obtain reading | ⟨t₁, x, t₂, rfl, parsed, came⟩ := came.bind_cases
  · have reads := reading.asked (parse_reads s script)
    exact .inl ⟨not_treeKept_of_reads reads, survives.places (storeEvents_read reads)⟩
  -- reading the script asks the state as well, and leaves tree and cursor alone
  have reads := parsed.asked (parse_reads s script)
  rw [List.filterMap_append] at survives
  obtain ⟨mid, unchanged, survives⟩ := Store.survives_append_iff.mp survives
  obtain ⟨sameTree, sameCursor⟩ := unchanged.places (storeEvents_read reads)
  have treeKept : TreeKept (t₁ ++ t₂) ↔ TreeKept t₂ := by
    simp only [TreeKept, List.mem_append, exists_or]
    exact or_iff_right (not_treeKept_of_reads reads)
  have cleared : CursorCleared (t₁ ++ t₂) ↔ CursorCleared t₂ :=
    List.mem_append.trans (or_iff_right fun mem => reads _ mem _ rfl trivial)
  rw [treeKept, cleared, ← sameTree, ← sameCursor]
  cases x with
  | error e =>
      cases came
      cases survives
      exact .inl ⟨by simp [TreeKept], rfl, rfl⟩
  | ok tree =>
      obtain ⟨_, keywords, _, -, -, last⟩ := ran_ok_bind_iff.mp parsed
      have read : tree = Script.parse keywords s.commandTimeout script :=
        Except.ok.inj (ran_done_iff.mp last).2
      obtain before | ⟨kept, own, cursor⟩ := left_by_preparation came unbegun.append_right survives
      · exact .inl before
      · exact .inr ⟨kept, ⟨keywords, own.trans read⟩, cursor⟩

/-- Nothing is run where the cursor stands at the end of the tree or beyond. -/
theorem resume_nothing {s : Settings} {t : List surroundings.Event}
    {r : Except Error (Option Run.Outcome)} {before after : Store.State}
    (run : Ran (resume s).run t r) (kept : Store.Kept before (t.filterMap storeEvent?) after)
    (atEnd : before.tree.length ≤ begins before.cursor) : r = .ok none := by
  obtain ⟨_, m₁, _, h₁, rfl, run, kept⟩ := ran_ofStore_bind run kept
  obtain ⟨_, m₂, w, h₂, rfl, run, -⟩ := ran_ofStore_bind run kept
  have treeFound : Store.Request.find m₁ .tree = before.tree := by rw [h₁]; rfl
  have cursorFound : Store.Request.find m₂ .cursor = before.cursor := by rw [h₂, h₁]; rfl
  rw [treeFound, cursorFound] at run
  change Ran (ExceptT.run (if before.tree.length ≤ begins before.cursor then _ else _)) w r at run
  rw [if_pos atEnd] at run
  exact (ran_done_iff.mp run).2

theorem begins_eq_zero_iff {cursor : Option Nat} : begins cursor = 0 ↔ cursor = none := by
  cases cursor <;> simp [begins]

/-- Some step is passed over unless there is none or the cursor is cleared. -/
theorem passes_none_iff {tree : List Block} {cursor : Option Nat} :
    (∀ i < tree.length, ¬ i < begins cursor) ↔ cursor = none ∨ tree = [] := by
  rw [← begins_eq_zero_iff, ← List.length_eq_zero_iff]
  constructor
  · intro none
    have := none 0
    omega
  · rintro (h | h) i below <;> omega

/-- A run is broken off before its first step. What is resumed after that begins with the step after
the cursor that is left. If the steps before the cursor of the state before were run from its tree,
then those passed over were run from the tree that is left, unless the new tree, with steps in it,
was kept beside an old cursor. Then none of the steps passed over was run. -/
theorem resume_after_interruption {s s' : Settings} {script : String} {start : Nat}
    {t u : List surroundings.Event} {r : Except Error (Option Run.Outcome)} {done : Nat → Prop}
    {before left found after : Store.State}
    (came : Came (runScript s script start).run t) (unbegun : Unbegun t)
    (survives : Store.Survives before (t.filterMap storeEvent?) left)
    (together : ∀ i < before.tree.length, i < begins before.cursor → done i)
    (sameTree : found.tree = left.tree) (sameCursor : found.cursor = left.cursor)
    (resumed : Ran (resume s').run u r)
    (kept : Store.Kept found (u.filterMap storeEvent?) after) :
    (left.tree.length ≤ begins left.cursor ∧ r = .ok none ∨
      ∃ v w o log begun,
        u = ⟨.inl (.inr (.inl .tree)), .ok left.tree⟩ ::
          ⟨.inl (.inr (.inl .cursor)), .ok left.cursor⟩ :: w ∧ Within v w ∧ r = .ok (some o) ∧
        Run.Account s' left.tree (begins left.cursor) v o log begun after) ∧
      (TreeKept t ∨ left.tree = before.tree) ∧
      (TreeKept t → ∃ keywords, left.tree = Script.parse keywords s.commandTimeout script) ∧
      ((∀ i < left.tree.length, i < begins left.cursor → ¬ TreeKept t ∧ done i) ↔
        ¬ TreeKept t ∨ CursorCleared t ∨ before.cursor = none ∨ left.tree = []) := by
  refine ⟨?_, ?_⟩
  · rw [← sameTree, ← sameCursor]
    obtain more | atEnd := Nat.lt_or_ge (begins found.cursor) found.tree.length
    case inr => exact .inl ⟨atEnd, resume_nothing resumed kept atEnd⟩
    case inl =>
      obtain ⟨v, w, o, log, begun, hu, within, ended, -, -, account⟩ :=
        resume_account resumed kept more
      exact .inr ⟨v, w, o, log, begun, hu, within, ended, account⟩
  · obtain ⟨notKept, tree, cursor⟩ | ⟨treeKept, own, rest⟩ := left_by_unbegun came unbegun survives
    · refine ⟨.inr tree, fun kept => absurd kept notKept, ?_⟩
      rw [tree, cursor]
      exact iff_of_true (fun i below passed => ⟨notKept, together i below passed⟩) (.inl notKept)
    · refine ⟨.inl treeKept, fun _ => own, ?_⟩
      simp only [treeKept, not_true_eq_false, false_and, false_or, imp_false, passes_none_iff]
      obtain ⟨cleared, cursor⟩ | ⟨notCleared, cursor⟩ := rest
      · simp [cleared, cursor]
      · simp [notCleared, cursor]

/-! ### A cursor that is not cleared -/

namespace Interrupted

open Sample (telling)

def script : String := "wait 2\nwait 3"

def tree : List Block := [
  .node { line := 0, code := ["wait", "2"], src := "wait 2", timeout := 5000 } [],
  .node { line := 1, code := ["wait", "3"], src := "wait 3", timeout := 5000 } []]

set_option maxRecDepth 4000 in
theorem tree_eq : Script.parse ⟨[], []⟩ 5000 script = tree := by cbv

/-- The one step of an earlier script has ended. -/
def before : Store.State := {
  cursor := some 0
  tree := [.node { line := 0, code := ["wait", "1"], src := "wait 1", timeout := 5000 } []] }

def left : Store.State := { before with tree }

def failed : Except Store.Error Unit := .error (.storage "injected clear_cursor")

def runTranscript : List surroundings.Event := [
  ⟨.inl (.inl .url), .error (.backend "")⟩, Sample.kept .sharedKeywords [],
  Sample.kept (.setTree tree) (), ⟨.inl (.inr (.inl .clearCursor)), failed⟩]

/-- The second step is the only one. -/
def resumeTranscript : List surroundings.Event := [
  Sample.kept .tree tree, Sample.kept .cursor (some 0), Sample.kept .stopFlag false,
  ⟨.inr (.clock (.sleep 3)), ()⟩, telling (.progress 2 2),
  telling (.log 2 "Performed 'wait' on '3'"), Sample.kept (.setCursor 1) ()]

theorem came : Came (runScript {} script 0).run runTranscript := by
  refine .ask _ (.ask _ ?_)
  show Came (ExceptT.run (do
    ofStore (Store.setTree (Script.parse ⟨[], []⟩ 5000 script))
    ofStore Store.clearCursor
    ofStore (Store.setStopFlag false)
    execute {} 0 (Script.parse ⟨[], []⟩ 5000 script))) _
  rw [tree_eq]
  exact .ask _ (.ask _ (.start _))

theorem unbegun : Unbegun runTranscript := by
  have none : ∀ e ∈ runTranscript, e.1 ≠ .inl (.inr (.inl .stopFlag)) := by
    rintro e (_ | ⟨_, _ | ⟨_, _ | ⟨_, _ | ⟨_, ⟨⟩⟩⟩⟩⟩) same <;> cases same
  intro before x rest same
  exact absurd rfl (none ⟨_, x⟩ (same ▸ List.mem_append_right _ (.head _)))

theorem survives : Store.Survives before (runTranscript.filterMap storeEvent?) left :=
  .answered false (.answered false (.failed false _ (.nil _)))

theorem resumed : Ran (resume {}).run resumeTranscript (.ok (some .completed)) :=
  .ask _ (.ask _ (.ask _ (.ask _ (.ask _ (.ask _ (.ask _ (.done _)))))))

theorem kept : Store.Kept left (resumeTranscript.filterMap storeEvent?)
    { left with cursor := some 1 } :=
  .cons false (.cons false (.cons false (.cons false (.nil _))))

end Interrupted

theorem resume_after_interruption_skips :
    (Came (runScript {} Interrupted.script 0).run Interrupted.runTranscript ∧
      Unbegun Interrupted.runTranscript ∧
      Store.Survives Interrupted.before (Interrupted.runTranscript.filterMap storeEvent?)
        Interrupted.left ∧
      Ran (resume {}).run Interrupted.resumeTranscript (.ok (some .completed))) ∧
    (Interrupted.left.tree.length ≤ begins Interrupted.left.cursor ∧
        (.ok (some .completed) : Except Error (Option Run.Outcome)) = .ok none ∨
      ∃ v w o log begun,
        Interrupted.resumeTranscript = ⟨.inl (.inr (.inl .tree)), .ok Interrupted.tree⟩ ::
          ⟨.inl (.inr (.inl .cursor)), .ok (some 0)⟩ :: w ∧ Within v w ∧
        (.ok (some .completed) : Except Error (Option Run.Outcome)) = .ok (some o) ∧
        Run.Account {} Interrupted.tree 1 v o log begun
          { Interrupted.left with cursor := some 1 }) ∧
      (TreeKept Interrupted.runTranscript ∨ Interrupted.left.tree = Interrupted.before.tree) ∧
      (TreeKept Interrupted.runTranscript → ∃ keywords,
        Interrupted.left.tree = Script.parse keywords 5000 Interrupted.script) ∧
      ((∀ i < 2, i < 1 → ¬ TreeKept Interrupted.runTranscript ∧ i = 0) ↔
        ¬ TreeKept Interrupted.runTranscript ∨ CursorCleared Interrupted.runTranscript ∨
          Interrupted.before.cursor = none ∨ Interrupted.left.tree = []) :=
  ⟨⟨Interrupted.came, Interrupted.unbegun, Interrupted.survives, Interrupted.resumed⟩,
    resume_after_interruption Interrupted.came Interrupted.unbegun Interrupted.survives
      (by decide : ∀ i < 1, i < 1 → i = 0) rfl rfl Interrupted.resumed Interrupted.kept⟩

end BrowserScript.Session
