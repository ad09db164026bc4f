import BrowserScript.Proofs.Run.Quiet

/-!
The record of a run: which top-level steps were begun, what each of them asked, and how it ended.
Outcome, progress and cursor of a run are three views of its record, whatever the page answers,
however the steps fail and whenever the stop flag is set.
-/

namespace BrowserScript.Run

open Prog

def look (stop : Bool) : surroundings.Event := ⟨.inr (.inl .stopFlag), .ok stop⟩

def telling (e : Event) : surroundings.Event := ⟨.inr (.inr e), ()⟩

def cursorSet (i : Nat) : surroundings.Event := ⟨.inr (.inl (.setCursor i)), .ok ()⟩

/-- A top-level step that was begun. -/
structure StepRun where
  index : Nat
  block : Block
  transcript : List surroundings.Event
  result : StepResult

namespace StepRun

def ended (q : StepRun) : Bool :=
  match q.result with
  | .done | .skipped => true
  | .failed _ | .stopped => false

def isDone (q : StepRun) : Bool := q.result = .done

/-- What is told and kept after a step. -/
def aftermath (total : Nat) (q : StepRun) : List surroundings.Event :=
  match q.result with
  | .done =>
    [telling (.progress (q.index + 1) total), telling (performed q.block.command),
      cursorSet q.index]
  | .skipped => [cursorSet q.index]
  | .failed _ | .stopped => []

/-- A step with the look at the stop flag before it. -/
def whole (total : Nat) (q : StepRun) : List surroundings.Event :=
  look false :: q.transcript ++ q.aftermath total

/-- The step is one of the tree, and it was run like this. -/
structure Genuine (s : Settings) (tree : List Block) (q : StepRun) : Prop where
  inTree : tree[q.index]? = some q.block
  ran : Ran (step s q.block).run q.transcript (.ok q.result)

end StepRun

/-- The first top-level step that a run did not end. -/
def Outcome.reached (total : Nat) : Outcome → Nat
  | .completed => total
  | .stopped i | .aborted i _ => i

inductive Record (s : Settings) (tree : List Block) :
    Nat → List surroundings.Event → Outcome → List StepRun → Prop
  | completed {i : Nat} (past : tree.length ≤ i) : Record s tree i [] .completed []
  | stoppedBefore {i : Nat} (more : i < tree.length) :
      Record s tree i [look true] (.stopped i) []
  | stoppedWithin {q : StepRun} (genuine : q.Genuine s tree) (result : q.result = .stopped) :
      Record s tree q.index (q.whole tree.length) (.stopped q.index) [q]
  | aborted {q : StepRun} {f : Failure} (genuine : q.Genuine s tree)
      (result : q.result = .failed f) :
      Record s tree q.index (q.whole tree.length) (.aborted q.index f) [q]
  | next {q : StepRun} {t : List surroundings.Event} {o : Outcome} {log : List StepRun}
      (genuine : q.Genuine s tree) (ended : q.ended) (rest : Record s tree (q.index + 1) t o log) :
      Record s tree q.index (q.whole tree.length ++ t) o (q :: log)

variable {s : Settings} {tree : List Block}

/-- A transcript of the steps from one on in which the state failed, or that has a record. -/
def Recorded (s : Settings) (tree : List Block) (i : Nat) (t : List surroundings.Event)
    (r : Except Store.Error Outcome) : Prop :=
  (∃ e, StoreFailed t e) ∨ ∃ o log, r = .ok o ∧ Record s tree i t o log

/-- When a step has ended, the cursor is set and the steps after it follow. -/
theorem Recorded.of_ended {q : StepRun} (genuine : q.Genuine s tree) (ended : q.ended)
    {v w : List surroundings.Event} {r : Except Store.Error Outcome}
    {rest : Prog surroundings (Except Store.Error Outcome)}
    (told : q.aftermath tree.length = v ++ [cursorSet q.index])
    (h : Ran (S := surroundings) (.ask (.inr (.inl (.setCursor q.index))) (orEnd fun _ => rest)) w r)
    (others : ∀ t, Ran rest t r → Recorded s tree (q.index + 1) t r) :
    Recorded s tree q.index (look false :: (q.transcript ++ (v ++ w))) r := by
  obtain ⟨kept, w, rfl, set⟩ := ran_ask_iff.mp h
  obtain ⟨e, rfl, -, -⟩ | ⟨⟨⟩, rfl, after⟩ := ran_orEnd_iff.mp set
  · exact .inl ⟨e, (((storeFailed_head ..).append_right v).append_right q.transcript).cons _⟩
  · have split : look false :: (q.transcript ++ (v ++ cursorSet q.index :: w)) =
        q.whole tree.length ++ w := by
      rw [StepRun.whole, told]
      simp
    change Recorded s tree q.index (look false :: (q.transcript ++ (v ++ cursorSet q.index :: w))) r
    rw [split]
    obtain ⟨e, failed⟩ | ⟨o, log, rfl, record⟩ := others w after
    · exact .inl ⟨e, failed.append_right _⟩
    · exact .inr ⟨o, q :: log, rfl, .next genuine ended record⟩

/-- Every run of the top-level steps has a record, unless the state failed. -/
theorem topSteps_recorded {i : Nat} {bs : List Block} {t : List surroundings.Event}
    {r : Except Store.Error Outcome} (hbs : tree.drop i = bs)
    (h : Ran (topSteps s tree.length i bs).run t r) : Recorded s tree i t r := by
  induction bs generalizing i t with
  | nil =>
      obtain ⟨rfl, rfl⟩ := ran_done_iff.mp h
      exact .inr ⟨_, _, rfl, .completed (List.drop_eq_nil_iff.mp hbs)⟩
  | cons b rest ih =>
      have here : tree[i]? = some b := by
        have first : (tree.drop i)[0]? = tree[i + 0]? := List.getElem?_drop
        rw [hbs] at first
        exact first.symm
      have next : tree.drop (i + 1) = rest := by
        rw [← List.drop_drop, hbs]
        rfl
      rw [topSteps_cons_run] at h
      obtain ⟨stop, u, rfl, hu⟩ := ran_ask_iff.mp h
      obtain ⟨e, rfl, -, -⟩ | ⟨stop, rfl, hu⟩ := ran_orEnd_iff.mp hu
      · exact .inl ⟨e, storeFailed_head ..⟩
      cases stop with
      | true =>
          obtain ⟨rfl, rfl⟩ := ran_done_iff.mp hu
          exact .inr ⟨_, _, rfl, .stoppedBefore (List.getElem?_eq_some_iff.mp here).choose⟩
      | false =>
          obtain ⟨t₁, ended, t₂, rfl, h₁, h₂⟩ := ran_bind_iff.mp hu
          obtain ⟨e, rfl, -, -⟩ | ⟨result, rfl, h₂⟩ := ran_orEnd_iff.mp h₂
          · exact .inl ⟨e, ((step_error h₁).append_left _).cons _⟩
          have genuine : StepRun.Genuine s tree ⟨i, b, t₁, result⟩ := ⟨here, h₁⟩
          cases result with
          | done =>
              obtain ⟨⟨⟩, _, rfl, told⟩ := ran_ask_iff.mp h₂
              obtain ⟨⟨⟩, w, rfl, set⟩ := ran_ask_iff.mp told
              exact .of_ended (v := [telling (.progress (i + 1) tree.length),
                telling (performed b.command)]) genuine rfl rfl set fun _ => ih next
          | skipped => exact .of_ended (v := []) genuine rfl rfl h₂ fun _ => ih next
          | failed f =>
              obtain ⟨rfl, rfl⟩ := ran_done_iff.mp h₂
              exact .inr ⟨_, _, rfl, .aborted genuine rfl⟩
          | stopped =>
              obtain ⟨rfl, rfl⟩ := ran_done_iff.mp h₂
              exact .inr ⟨_, _, rfl, .stoppedWithin genuine rfl⟩

end BrowserScript.Run
