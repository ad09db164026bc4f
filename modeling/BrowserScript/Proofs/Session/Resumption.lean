import Mathlib
import BrowserScript.Proofs.Run.Account
import BrowserScript.Session.Basic

/-!
Where a run goes on. The place is not kept: it is the step after the last one that ended, and the
first step of the script when none has. So a run that began further down and ended at its first
step goes on from the top.
-/

namespace BrowserScript.Session

open Prog

/-! ## Transcripts

A run within a session has a transcript of its own, which shows the same requests to the state. -/

/-- What the state was asked, with its answer. -/
def storeEvent? : surroundings.Event → Option Store.signature.Event
  | ⟨.inl (.inr (.inl q)), x⟩ => some ⟨q, x⟩
  | _ => none

/-- The transcript of a run and what became of it in a session. -/
abbrev Within : List Run.surroundings.Event → List surroundings.Event → Prop :=
  Serves Signature.Within.ask

theorem Within.storeEvents {v : List Run.surroundings.Event} {t : List surroundings.Event}
    (h : Within v t) : t.filterMap storeEvent? = v.filterMap Run.storeEvent? := by
  refine h.filterMap_eq ?_
  intro r u x served
  rcases r with (_ | _) | (_ | _) <;>
    (obtain ⟨x, _, rfl, last⟩ := ran_ask_iff.mp served
     obtain ⟨rfl, rfl⟩ := ran_done_iff.mp last
     rfl)

/-- A run in a session is the run on its own. -/
theorem ran_ofRun {a : Run.Access α} {t : List surroundings.Event} {r : Except Error α}
    (h : Ran (ofRun a).run t r) :
    ∃ v x, Ran a.run v x ∧ Within v t ∧ r = x.mapError .store := by
  obtain ⟨t₁, x, t₂, rfl, h₁, h₂⟩ := ran_bind_iff.mp h
  obtain ⟨v, hv, within⟩ := ran_run_iff.mp h₁
  have whole : t₂ = [] ∧ r = x.mapError .store := by
    cases x <;> exact ran_done_iff.mp h₂
  obtain ⟨rfl, rfl⟩ := whole
  rw [List.append_nil]
  exact ⟨v, x, hv, within, rfl⟩

theorem ran_ofStore {q : Store.Request} {t : List surroundings.Event}
    {r : Except Error q.Result} (h : Ran (ofStore (Store.ask q)).run t r) :
    ∃ x, t = [⟨.inl (.inr (.inl q)), x⟩] ∧ r = x.mapError .store := by
  obtain ⟨x, u, rfl, rest⟩ := ran_ask_iff.mp h
  have last : u = [] ∧ r = x.mapError .store := by
    cases x <;> exact ran_done_iff.mp rest
  obtain ⟨rfl, rfl⟩ := last
  exact ⟨x, rfl, rfl⟩

/-- A request to a state that is kept is answered from it, and the program goes on. -/
theorem ran_ofStore_bind {q : Store.Request} {f : q.Result → Access α}
    {t : List surroundings.Event} {r : Except Error α} {before after : Store.State}
    (h : Ran (ofStore (Store.ask q) >>= f).run t r)
    (kept : Store.Kept before (t.filterMap storeEvent?) after) :
    ∃ stop mid u, mid = q.apply { before with stop } ∧
      t = ⟨.inl (.inr (.inl q)), .ok (q.find mid)⟩ :: u ∧
      Ran (f (q.find mid)).run u r ∧ Store.Kept mid (u.filterMap storeEvent?) after := by
  rw [run_bind_eq, ran_bind_iff] at h
  obtain ⟨t₁, x, u, rfl, asked, rest⟩ := h
  obtain ⟨x, rfl, rfl⟩ := ran_ofStore asked
  cases kept with
  | cons stop kept => exact ⟨stop, _, u, rfl, rfl, rest, kept⟩

/-! ## Going on -/

/-- Where a run goes on that began with one step and came to another. -/
def resumption (start reached : Nat) : Nat := if start < reached then reached else 0

theorem resumption_eq_iff {start reached : Nat} (h : start ≤ reached) :
    resumption start reached = reached ↔ start < reached ∨ start = 0 := by
  unfold resumption
  split <;> omega

/-- The step that an unfinished run did not end. -/
def unfinishedAt? : Run.Outcome → Option Nat
  | .completed => none
  | .stopped i | .aborted i _ => some i

theorem reached_of_unfinishedAt? {o : Run.Outcome} {i : Nat} (h : unfinishedAt? o = some i)
    (total : Nat) : o.reached total = i ∧ o ≠ .completed := by
  cases o <;> cases h <;> exact ⟨rfl, nofun⟩

/-- The step a session begins with when it goes on. -/
def begins (cursor : Option Nat) : Nat :=
  match cursor with
  | some last => last + 1
  | none => 0

/-- A script is read, kept as the current run with no cursor, and run. -/
theorem runScript_account {s : Settings} {script : String} {start : Nat}
    {t : List surroundings.Event} {o : Run.Outcome} {before after : Store.State}
    (run : Ran (runScript s script start).run t (.ok o))
    (kept : Store.Kept before (t.filterMap storeEvent?) after) :
    ∃ keywords tree v log begun, tree = Script.parse keywords s.commandTimeout script ∧
      begun.tree = tree ∧ begun.cursor = none ∧
      Run.Account s tree start v o log begun after := by
  obtain ⟨t₁, tree, t₂, rfl, parsed, run⟩ := ran_ok_bind_iff.mp run
  obtain ⟨_, keywords, _, -, -, last⟩ := ran_ok_bind_iff.mp parsed
  have read : tree = Script.parse keywords s.commandTimeout script :=
    Except.ok.inj (ran_done_iff.mp last).2
  rw [List.filterMap_append] at kept
  obtain ⟨_, -, kept⟩ := Store.kept_append_iff.mp kept
  obtain ⟨_, set, _, hset, rfl, run, kept⟩ := ran_ofStore_bind run kept
  obtain ⟨_, cleared, _, hcleared, rfl, run, kept⟩ := ran_ofStore_bind run kept
  obtain ⟨_, begun, _, hbegun, rfl, run, kept⟩ := ran_ofStore_bind run kept
  obtain ⟨v, x, ran, within, ended⟩ := ran_ofRun run
  rw [within.storeEvents] at kept
  obtain ⟨o', log, rfl, account⟩ := Run.execute_account ran kept
  obtain rfl : o = o' := Except.ok.inj ended
  refine ⟨keywords, tree, v, log, begun, read, ?_, ?_, account⟩
  · rw [hbegun, hcleared, hset]
    rfl
  · rw [hbegun, hcleared]
    rfl

/-- An unfinished run leaves the tree and the place from which it is resumed. -/
theorem begins_after_runScript {s : Settings} {script : String} {start i : Nat}
    {t : List surroundings.Event} {o : Run.Outcome} {before after : Store.State}
    (run : Ran (runScript s script start).run t (.ok o))
    (kept : Store.Kept before (t.filterMap storeEvent?) after)
    (unfinished : unfinishedAt? o = some i) :
    start ≤ i ∧ i < after.tree.length ∧ begins after.cursor = resumption start i := by
  obtain ⟨keywords, tree, v, log, begun, -, htree, cleared, account⟩ := runScript_account run kept
  obtain ⟨reached, notCompleted⟩ := reached_of_unfinishedAt? unfinished tree.length
  obtain ⟨above, below⟩ := account.reached.resolve_left notCompleted
  rw [reached] at above below
  rw [account.tree, htree]
  refine ⟨above, below, ?_⟩
  rw [account.cursor, account.ended, cleared, reached]
  unfold resumption
  split
  case isTrue further =>
    have last : (List.range' start (i - start)).max? = some (i - 1) := by
      rw [List.max?_eq_some_iff]
      constructor
      · exact List.mem_range'_1.mpr (by omega)
      · intro j hj
        have := List.mem_range'_1.mp hj
        omega
    rw [last]
    exact Nat.sub_add_cancel (by omega)
  case isFalse notFurther =>
    rw [Nat.sub_eq_zero_of_le (Nat.le_of_not_lt notFurther)]
    rfl

/-- Going on begins with the step after the cursor. -/
theorem resume_account {s : Settings} {t : List surroundings.Event}
    {r : Except Error (Option Run.Outcome)} {before after : Store.State}
    (run : Ran (resume s).run t r) (kept : Store.Kept before (t.filterMap storeEvent?) after)
    (more : begins before.cursor < before.tree.length) :
    ∃ v w o log begun,
      t = ⟨.inl (.inr (.inl .tree)), .ok before.tree⟩ ::
        ⟨.inl (.inr (.inl .cursor)), .ok before.cursor⟩ :: w ∧ Within v w ∧
      r = .ok (some o) ∧ begun.tree = before.tree ∧ begun.cursor = before.cursor ∧
      Run.Account s before.tree (begins before.cursor) v o log begun after := by
  obtain ⟨_, m₁, _, h₁, rfl, run, kept⟩ := ran_ofStore_bind run kept
  obtain ⟨_, m₂, w, h₂, rfl, run, kept⟩ := ran_ofStore_bind run kept
  have tree₂ : m₂.tree = before.tree := by rw [h₂, h₁]; rfl
  have cursor₂ : m₂.cursor = before.cursor := by rw [h₂, h₁]; rfl
  have treeFound : Store.Request.find m₁ .tree = before.tree := by rw [h₁]; rfl
  have cursorFound : Store.Request.find m₂ .cursor = before.cursor := cursor₂
  have goOn : Ran (execute s (begins before.cursor) before.tree >>= fun o => pure (some o)).run
      w r := by
    rw [treeFound, cursorFound] at run
    change Ran (ExceptT.run (if before.tree.length ≤ begins before.cursor then _ else _)) w r at run
    rwa [if_neg (Nat.not_le.mpr more)] at run
  rw [run_bind_eq, ran_bind_iff] at goOn
  obtain ⟨w₁, x, w₂, rfl, executed, last⟩ := goOn
  obtain ⟨v, x, ran, within, rfl⟩ := ran_ofRun executed
  rw [List.filterMap_append, within.storeEvents] at kept
  obtain ⟨ended, kept, rest⟩ := Store.kept_append_iff.mp kept
  obtain ⟨o, log, rfl, account⟩ := Run.execute_account ran kept
  obtain ⟨rfl, rfl⟩ := ran_done_iff.mp last
  cases rest
  refine ⟨v, w₁, o, log, m₂, ?_, within, rfl, tree₂, cursor₂, account⟩
  rw [treeFound, cursorFound, List.append_nil]

/-- A run that is not over goes on with the script it began with. The step it goes on with is the
one it came to, unless it began further down and did not end its first step: then it goes on from
the top. Whether the tree and the cursor were left alone in between is all that matters; when the
stop flag is seen before, nothing is begun. -/
theorem resume_after_runScript {s : Settings} {script : String} {start i : Nat}
    {t u : List surroundings.Event} {o : Run.Outcome}
    {r : Except Error (Option Run.Outcome)} {before left found after : Store.State}
    (run : Ran (runScript s script start).run t (.ok o))
    (kept : Store.Kept before (t.filterMap storeEvent?) left)
    (unfinished : unfinishedAt? o = some i)
    (sameTree : found.tree = left.tree) (sameCursor : found.cursor = left.cursor)
    (resumed : Ran (resume s).run u r)
    (keptAgain : Store.Kept found (u.filterMap storeEvent?) after) :
    ∃ v w o' log begun,
      u = ⟨.inl (.inr (.inl .tree)), .ok left.tree⟩ ::
        ⟨.inl (.inr (.inl .cursor)), .ok left.cursor⟩ :: w ∧ Within v w ∧
      r = .ok (some o') ∧
      Run.Account s left.tree (resumption start i) v o' log begun after ∧
      ((∃ q, log.head? = some q ∧ q.index = resumption start i) ∨
        v = [Run.look true] ∧ o' = .stopped (resumption start i)) ∧
      (resumption start i = i ↔ start < i ∨ start = 0) := by
  obtain ⟨above, below, same⟩ := begins_after_runScript run kept unfinished
  rw [← sameCursor] at same
  have inTree : resumption start i < left.tree.length := by
    unfold resumption
    split <;> omega
  have more : begins found.cursor < found.tree.length := by rwa [same, sameTree]
  obtain ⟨v, w, o', log, begun, hu, within, rfl, -, -, account⟩ :=
    resume_account resumed keptAgain more
  rw [same, sameTree] at account
  refine ⟨v, w, o', log, begun, ?_, within, rfl, account, account.head inTree,
    resumption_eq_iff above⟩
  rw [hu, sameTree, sameCursor]

/-! ### A run that goes on from the top -/

namespace Sample

def script : String := "wait 1\nselect"

def tree : List Block := [
  .node { line := 0, code := ["wait", "1"], src := "wait 1", timeout := 5000 } [],
  .node { line := 1, code := ["select"], src := "select", timeout := 5000 } []]

set_option maxRecDepth 4000 in
theorem tree_eq : Script.parse ⟨[], []⟩ 5000 script = tree := by cbv

def kept (q : Store.Request) (x : q.Result) : surroundings.Event := ⟨.inl (.inr (.inl q)), .ok x⟩

def telling (e : Run.Event) : surroundings.Event := ⟨.inl (.inr (.inr (.inl (.tell e)))), ()⟩

/-- The second step is begun and fails. -/
def lastStep : List surroundings.Event := [
  kept .stopFlag false,
  telling (.log 2 "❌ Error: 'select' on '' failed - Missing locator for 'select'")]

def runTranscript : List surroundings.Event :=
  ⟨.inl (.inl .url), .error (.backend "")⟩ :: kept .sharedKeywords [] :: kept (.setTree tree) () ::
    kept .clearCursor () :: kept (.setStopFlag false) () :: lastStep

def resumeTranscript : List surroundings.Event :=
  kept .tree tree :: kept .cursor none :: kept .stopFlag false :: ⟨.inr (.clock (.sleep 1)), ()⟩ ::
    telling (.progress 1 2) :: telling (.log 1 "Performed 'wait' on '1'") ::
    kept (.setCursor 0) () :: lastStep

def outcome : Run.Outcome := .aborted 1 (.command (.missingLocator "select"))

theorem ran : Ran (runScript {} script 1).run runTranscript (.ok outcome) := by
  refine .ask _ (.ask _ ?_)
  show Ran (ExceptT.run (do
    ofStore (Store.setTree (Script.parse ⟨[], []⟩ 5000 script))
    ofStore Store.clearCursor
    ofStore (Store.setStopFlag false)
    execute {} 1 (Script.parse ⟨[], []⟩ 5000 script))) _ _
  rw [tree_eq]
  exact .ask _ (.ask _ (.ask _ (.ask _ (.ask _ (.done _)))))

theorem resumed : Ran (resume {}).run resumeTranscript (.ok (some outcome)) :=
  .ask _ (.ask _ (.ask _ (.ask _ (.ask _ (.ask _ (.ask _ (.ask _ (.ask _ (.done _)))))))))

end Sample

theorem resume_after_runScript_from_the_top :
    ∃ v w o' log begun,
      Sample.resumeTranscript = ⟨.inl (.inr (.inl .tree)), .ok Sample.tree⟩ ::
        ⟨.inl (.inr (.inl .cursor)), .ok none⟩ :: w ∧ Within v w ∧
      (.ok (some Sample.outcome) : Except Error _) = .ok (some o') ∧
      Run.Account {} Sample.tree (resumption 1 1) v o' log begun
        { cursor := some 0, tree := Sample.tree } ∧
      ((∃ q, log.head? = some q ∧ q.index = resumption 1 1) ∨
        v = [Run.look true] ∧ o' = .stopped (resumption 1 1)) ∧
      (resumption 1 1 = 1 ↔ 1 < 1 ∨ 1 = 0) :=
  resume_after_runScript Sample.ran
    (.cons false (.cons false (.cons false (.cons false (.cons false (.nil _))))) :
      Store.Kept {} _ { tree := Sample.tree })
    rfl rfl rfl Sample.resumed
    (.cons false (.cons false (.cons false (.cons false (.cons false (.nil _))))) :
      Store.Kept { tree := Sample.tree } _ { cursor := some 0, tree := Sample.tree })

end BrowserScript.Session
