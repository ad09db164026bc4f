import Mathlib
import BrowserScript.Proofs.Program.Notes
import BrowserScript.Proofs.Run.Record
import BrowserScript.Proofs.Script.Placement

/-!
The commands that a run comes to. A run that is completed has begun each of them once and in script
order, and these are all commands of the script just when nothing but headings has commands below
it: what is indented below another command is never begun, and the run is completed all the same.
-/

namespace BrowserScript

namespace Command

/-- A heading, below which a run goes on. -/
def IsHeading (c : Command) : Prop := c.verb = some "under"

instance (c : Command) : Decidable c.IsHeading := inferInstanceAs (Decidable (_ = _))

theorem ok_of_bind {ε α β : Type} {x : Except ε α} {f : α → Except ε β} {b : β}
    (h : x >>= f = .ok b) : ∃ a, x = .ok a ∧ f a = .ok b := by
  cases x with
  | error e => cases h
  | ok a => exact ⟨a, rfl, h⟩

theorem isHeading_of_action {c : Command} {heading : Option String}
    (h : c.action = .ok (.under heading)) : c.IsHeading := by
  unfold action at h
  split at h
  · cases h
  · rename_i verb found
    split at h
    case h_1 | h_4 | h_5 | h_6 | h_7 | h_8 =>
      obtain ⟨_, -, h⟩ := ok_of_bind h
      cases h
    case h_2 | h_3 =>
      obtain ⟨_, -, h⟩ := ok_of_bind h
      obtain ⟨_, -, h⟩ := ok_of_bind h
      cases h
    case h_9 =>
      cases decoded : c.verification <;> rw [decoded] at h <;> cases h
    case h_10 => exact found
    case h_11 => cases h

theorem action_of_isHeading {c : Command} (h : c.IsHeading) :
    c.action = .ok (.under c.quotedLiterals.head?) := by
  unfold IsHeading at h
  simp [action, h]

end Command

namespace Block

mutual

/-- The commands of a block that a run comes to. -/
def reached : Block → List Command
  | .node c body => c :: if c.IsHeading then reachedAll body else []

def reachedAll : List Block → List Command
  | [] => []
  | b :: rest => reached b ++ reachedAll rest

end

mutual

/-- Nothing but headings has commands below it. -/
def OnlyHeadings : Block → Prop
  | .node c body => (c.IsHeading ∨ body = []) ∧ OnlyHeadingsAll body

def OnlyHeadingsAll : List Block → Prop
  | [] => True
  | b :: rest => OnlyHeadings b ∧ OnlyHeadingsAll rest

end

theorem reached_ne_nil (b : Block) : b.reached ≠ [] := by
  obtain ⟨c, body⟩ := b
  rw [reached]
  exact List.cons_ne_nil _ _

mutual

theorem reached_sublist : ∀ b : Block, (reached b).Sublist (preorder b)
  | .node c body => by
      rw [reached, preorder]
      split
      · exact (reachedAll_sublist body).cons_cons c
      · exact (List.nil_sublist _).cons_cons c

theorem reachedAll_sublist : ∀ bs : List Block, (reachedAll bs).Sublist (preorderAll bs)
  | [] => .slnil
  | b :: rest => (reached_sublist b).append (reachedAll_sublist rest)

end

theorem append_eq_append_iff_of_sublist {α : Type} {l₁ l₂ m₁ m₂ : List α} (h₁ : l₁.Sublist m₁)
    (h₂ : l₂.Sublist m₂) : l₁ ++ l₂ = m₁ ++ m₂ ↔ l₁ = m₁ ∧ l₂ = m₂ := by
  constructor
  · intro same
    have total := congrArg List.length same
    have le₁ := h₁.length_le
    have le₂ := h₂.length_le
    simp only [List.length_append] at total
    exact ⟨h₁.eq_of_length (by omega), h₂.eq_of_length (by omega)⟩
  · rintro ⟨rfl, rfl⟩
    rfl

theorem preorderAll_eq_nil_iff {bs : List Block} : preorderAll bs = [] ↔ bs = [] := by
  cases bs with
  | nil => simp [preorderAll]
  | cons b rest =>
      obtain ⟨c, body⟩ := b
      simp [preorderAll, preorder]

mutual

theorem reached_eq_iff : ∀ b : Block, reached b = preorder b ↔ OnlyHeadings b
  | .node c body => by
      rw [reached, preorder, OnlyHeadings, List.cons.injEq]
      by_cases heading : c.IsHeading
      · simp [heading, reachedAll_eq_iff body]
      · rw [if_neg heading, eq_comm (a := []), preorderAll_eq_nil_iff]
        constructor
        · rintro ⟨-, rfl⟩
          exact ⟨.inr rfl, trivial⟩
        · rintro ⟨h | rfl, -⟩
          · exact absurd h heading
          · exact ⟨rfl, rfl⟩

theorem reachedAll_eq_iff : ∀ bs : List Block,
    reachedAll bs = preorderAll bs ↔ OnlyHeadingsAll bs
  | [] => by simp [reachedAll, preorderAll, OnlyHeadingsAll]
  | b :: rest => by
      rw [reachedAll, preorderAll, OnlyHeadingsAll, ← reached_eq_iff b, ← reachedAll_eq_iff rest]
      exact append_eq_append_iff_of_sublist (reached_sublist b) (reachedAll_sublist rest)

end

end Block

namespace Run

open Prog

/-! ## Runs that note each step they begin -/

mutual

/-- A step that notes the commands it begins. -/
def notedStep (s : Settings) :
    Block → Prog (surroundings.noting Command) (Except Store.Error StepResult)
  | .node c body => .ask (.inl c) fun _ =>
    match c.action with
    | .error e => noteless ((fail s c (.command e)).bind fun r => .done (.ok r))
    | .ok (.under _) => notedSteps s body
    | .ok a => noteless ((simple s c a).bind fun r => .done (.ok r))

def notedSteps (s : Settings) :
    List Block → Prog (surroundings.noting Command) (Except Store.Error StepResult)
  | [] => .done (.ok .done)
  | b :: rest => .ask (.inr (.inr (.inl .stopFlag))) (orEnd fun
      | true => .done (.ok .stopped)
      | false => (notedStep s b).bind (orEnd fun
        | .done => .ask (.inr (.inr (.inr (performed b.command)))) fun _ => notedSteps s rest
        | .skipped => notedSteps s rest
        | other => .done (.ok other)))

end

def notedTopSteps (s : Settings) (total : Nat) :
    Nat → List Block → Prog (surroundings.noting Command) (Except Store.Error Outcome)
  | _, [] => .done (.ok .completed)
  | i, b :: rest => .ask (.inr (.inr (.inl .stopFlag))) (orEnd fun
      | true => .done (.ok (.stopped i))
      | false => (notedStep s b).bind (orEnd fun
        | .done =>
          .ask (.inr (.inr (.inr (.progress (i + 1) total)))) fun _ =>
          .ask (.inr (.inr (.inr (performed b.command)))) fun _ =>
          .ask (.inr (.inr (.inl (.setCursor i)))) (orEnd fun _ =>
            notedTopSteps s total (i + 1) rest)
        | .skipped =>
          .ask (.inr (.inr (.inl (.setCursor i)))) (orEnd fun _ =>
            notedTopSteps s total (i + 1) rest)
        | .failed f => .done (.ok (.aborted i f))
        | .stopped => .done (.ok (.stopped i))))

/-- A run that notes each step when it begins it. -/
def notedRun (s : Settings) (start : Nat) (tree : List Block) :
    Prog (surroundings.noting Command) (Except Store.Error Outcome) :=
  notedTopSteps s tree.length start (tree.drop start)

section Erasure

variable (s : Settings)

mutual

theorem erase_notedStep : ∀ b : Block, erase (notedStep s b) = (step s b).run
  | .node c body => by
      rw [step_run, notedStep, erase]
      cases c.action with
      | error e => exact erase_noteless _
      | ok a =>
          cases a with
          | under heading => exact erase_notedSteps body
          | _ => exact erase_noteless _

theorem erase_notedSteps : ∀ bs : List Block, erase (notedSteps s bs) = (steps s bs).run
  | [] => by
      rw [notedSteps]
      rfl
  | b :: rest => by
      rw [steps_cons_run, notedSteps]
      refine congrArg (ask _) (funext (erase_orEnd fun stop => ?_))
      cases stop with
      | true => rfl
      | false =>
          refine erase_bind_orEnd (fun ended => ?_) (erase_notedStep b)
          cases ended with
          | done => exact congrArg (ask _) (funext fun _ => erase_notedSteps rest)
          | skipped => exact erase_notedSteps rest
          | failed f | stopped => rfl

end

theorem erase_notedTopSteps (total i : Nat) (bs : List Block) :
    erase (notedTopSteps s total i bs) = (topSteps s total i bs).run := by
  induction bs generalizing i with
  | nil => rfl
  | cons b rest ih =>
      rw [topSteps_cons_run, notedTopSteps]
      refine congrArg (ask _) (funext (erase_orEnd fun stop => ?_))
      cases stop with
      | true => rfl
      | false =>
          refine erase_bind_orEnd (fun ended => ?_) (erase_notedStep s b)
          have goOn := funext (erase_orEnd (ε := Store.Error) fun _ : Unit => ih (i + 1))
          cases ended with
          | done =>
              refine congrArg (ask _) (funext fun _ => congrArg (ask _) (funext fun _ => ?_))
              exact congrArg (ask _) goOn
          | skipped => exact congrArg (ask _) goOn
          | failed f | stopped => rfl

theorem erase_notedRun (start : Nat) (tree : List Block) :
    erase (notedRun s start tree) = (execute s start tree).run := erase_notedTopSteps ..

end Erasure

/-! ## What is noted -/

/-- A step after which the run goes on. -/
def StepResult.GoesOn : StepResult → Prop
  | .done | .skipped => True
  | .failed _ | .stopped => False

section Notes

variable {s : Settings}

mutual

theorem notes_notedStep :
    ∀ {b : Block} {u : List (surroundings.noting Command).Event} {r : StepResult},
      Ran (notedStep s b) u (.ok r) → r.GoesOn → notes u = b.reached
  | .node c body, u, r, h, goesOn => by
      rw [notedStep] at h
      obtain ⟨⟨⟩, v, rfl, hv⟩ := ran_ask_iff.mp h
      refine congrArg (c :: ·) ?_
      split at hv
      case h_1 e action =>
        rw [if_neg]
        · exact notes_noteless hv
        · intro heading
          cases action.symm.trans (Command.action_of_isHeading heading)
      case h_2 heading action =>
        rw [if_pos (Command.isHeading_of_action action)]
        exact notes_notedSteps hv goesOn
      case h_3 a other action =>
        rw [if_neg]
        · exact notes_noteless hv
        · intro heading
          have same := action.symm.trans (Command.action_of_isHeading heading)
          exact other _ (Except.ok.inj same)

theorem notes_notedSteps :
    ∀ {bs : List Block} {u : List (surroundings.noting Command).Event} {r : StepResult},
      Ran (notedSteps s bs) u (.ok r) → r.GoesOn → notes u = Block.reachedAll bs
  | [], u, r, h, goesOn => by
      rw [notedSteps] at h
      obtain ⟨rfl, -⟩ := ran_done_iff.mp h
      rfl
  | b :: rest, u, r, h, goesOn => by
      rw [notedSteps] at h
      obtain ⟨stop, v, rfl, hv⟩ := ran_ask_iff.mp h
      obtain ⟨stop, rfl, hv⟩ := ran_orEnd_ok_iff.mp hv
      cases stop with
      | true =>
          cases hv
          exact goesOn.elim
      | false =>
          obtain ⟨first, ended, others, rfl, hb, hrest⟩ := ran_bind_orEnd_ok_iff.mp hv
          cases ended with
          | done =>
              obtain ⟨_, w, rfl, hw⟩ := ran_ask_iff.mp hrest
              refine notes_ask_append.trans ?_
              exact congrArg₂ (· ++ ·) (notes_notedStep hb trivial)
                (notes_ask.trans (notes_notedSteps hw goesOn))
          | skipped =>
              refine notes_ask_append.trans ?_
              exact congrArg₂ (· ++ ·) (notes_notedStep hb trivial) (notes_notedSteps hrest goesOn)
          | failed f | stopped =>
              cases hrest
              exact goesOn.elim

end

/-- Whatever the page and the state answer and however the steps end: where the run goes on to its
end, it has begun these commands in this order. -/
theorem notes_notedTopSteps {total i : Nat} {bs : List Block}
    {u : List (surroundings.noting Command).Event}
    (h : Ran (notedTopSteps s total i bs) u (.ok .completed)) :
    notes u = Block.reachedAll bs := by
  induction bs generalizing i u with
  | nil =>
      obtain ⟨rfl, -⟩ := ran_done_iff.mp h
      rfl
  | cons b rest ih =>
      rw [notedTopSteps] at h
      obtain ⟨stop, v, rfl, hv⟩ := ran_ask_iff.mp h
      obtain ⟨stop, rfl, hv⟩ := ran_orEnd_ok_iff.mp hv
      cases stop with
      | true => cases hv
      | false =>
          obtain ⟨first, ended, others, rfl, hb, hrest⟩ := ran_bind_orEnd_ok_iff.mp hv
          cases ended with
          | done =>
              obtain ⟨_, _, rfl, told⟩ := ran_ask_iff.mp hrest
              obtain ⟨_, _, rfl, set⟩ := ran_ask_iff.mp told
              obtain ⟨_, w, rfl, kept⟩ := ran_ask_iff.mp set
              obtain ⟨_, rfl, hw⟩ := ran_orEnd_ok_iff.mp kept
              refine notes_ask_append.trans ?_
              exact congrArg₂ (· ++ ·) (notes_notedStep hb trivial)
                (notes_ask.trans (notes_ask.trans (notes_ask.trans (ih hw))))
          | skipped =>
              obtain ⟨_, w, rfl, kept⟩ := ran_ask_iff.mp hrest
              obtain ⟨_, rfl, hw⟩ := ran_orEnd_ok_iff.mp kept
              refine notes_ask_append.trans ?_
              exact congrArg₂ (· ++ ·) (notes_notedStep hb trivial) (notes_ask.trans (ih hw))
          | failed f | stopped => cases hrest

end Notes

/-- A completed run of a script, as others heard it, settles which commands were begun: each command
that it comes to once and in the order of the lines. These are all commands of the script just when
nothing but headings has commands below it. -/
theorem completed_reaches {s : Settings} {keywords : KeywordSet} {timeout : Nat}
    {script : String} {t : List surroundings.Event}
    (h : Ran (execute s 0 (Script.parse keywords timeout script)).run t (.ok .completed)) :
    let tree := Script.parse keywords timeout script
    ∃ u, (Ran (notedRun s 0 tree) u (.ok .completed) ∧ heard u = t ∧
        ∀ v o, Ran (notedRun s 0 tree) v o → heard v = t → v = u) ∧
      notes u = Block.reachedAll tree ∧ (notes u).Pairwise (fun c d => c.line < d.line) ∧
      (notes u = Block.preorderAll tree ↔ Block.OnlyHeadingsAll tree) := by
  intro tree
  rw [← erase_notedRun] at h
  obtain ⟨u, hu, same⟩ := ran_erase_iff.mp h
  have begun : notes u = Block.reachedAll tree := notes_notedTopSteps hu
  refine ⟨u, ⟨hu, same, fun v o hv alike => hv.eq_of_heard hu (alike.trans same.symm)⟩, begun,
    ?_, ?_⟩
  · have lines := (Script.parse_attaches_lines keywords timeout script).2.2.1
    rw [begun]
    exact lines.sublist (Block.reachedAll_sublist tree)
  · rw [begun]
    exact Block.reachedAll_eq_iff tree

/-! ### A line below a pause -/

namespace Sample

def nested : String := "wait 1\n  wait 2"

def nestedTree : List Block := [
  .node { line := 0, code := ["wait", "1"], src := "wait 1", timeout := 5000 } [
    .node { line := 1, code := ["wait", "2"], src := "wait 2", timeout := 5000 } []]]

set_option maxRecDepth 4000 in
theorem nestedTree_eq : Script.parse ⟨[], []⟩ 5000 nested = nestedTree := by cbv

def nestedTranscript : List surroundings.Event := [
  look false, ⟨.inl (.inr (.sleep 1)), ()⟩, telling (.progress 1 1),
  telling (.log 1 "Performed 'wait' on '1'"), cursorSet 0]

theorem nested_ran : Ran (execute {} 0 (Script.parse ⟨[], []⟩ 5000 nested)).run nestedTranscript
    (.ok .completed) := by
  rw [nestedTree_eq]
  exact .ask _ (.ask _ (.ask _ (.ask _ (.ask _ (.done _)))))

end Sample

theorem completed_reaches_line_above_only :
    let tree := Script.parse ⟨[], []⟩ 5000 Sample.nested
    (∃ u, (Ran (notedRun {} 0 tree) u (.ok .completed) ∧ heard u = Sample.nestedTranscript ∧
        ∀ v o, Ran (notedRun {} 0 tree) v o → heard v = Sample.nestedTranscript → v = u) ∧
      notes u = Block.reachedAll tree ∧ (notes u).Pairwise (fun c d => c.line < d.line) ∧
      (notes u = Block.preorderAll tree ↔ Block.OnlyHeadingsAll tree)) ∧
    (Block.reachedAll tree).map (·.line) = [0] ∧
      (Block.preorderAll tree).map (·.line) = [0, 1] := by
  refine ⟨completed_reaches Sample.nested_ran, ?_, ?_⟩ <;> rw [Sample.nestedTree_eq] <;> decide

end Run

end BrowserScript
