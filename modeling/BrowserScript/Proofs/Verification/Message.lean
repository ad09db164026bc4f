import BrowserScript.Proofs.Program.Transcript
import BrowserScript.Session.Usability
import BrowserScript.Verification.Board
import BrowserScript.Verification.Watch

/-!
What is said about a statement. Two messages are reserved, for a statement nobody looked at and for
one that was still open at the end: no look and no watch ends with one of them.
-/

namespace BrowserScript

open Page (Access Handle)
open Prog
open Verification (Outcome)

def reservedMessages : List String := [Usability.notYetMet, Board.incompleteMessage]

/-- A message that is known by its beginning. -/
theorem not_reserved_of_start (start rest : String)
    (apart : ∀ m ∈ reservedMessages, ¬start.toList <+: m.toList) :
    start ++ rest ∉ reservedMessages := by
  intro reserved
  refine apart _ reserved ⟨rest.toList, ?_⟩
  exact (String.toList_append ..).symm

theorem not_reserved_of_ending (start rest : String)
    (apart : ∀ m ∈ reservedMessages, ¬rest.toList <:+ m.toList) :
    start ++ rest ∉ reservedMessages := by
  intro reserved
  refine apart _ reserved ⟨start.toList, ?_⟩
  exact (String.toList_append ..).symm

/-- An outcome that says something else, if it says that all is well. -/
def Verification.Outcome.Plain (o : Outcome) : Prop :=
  o.success = true → o.message ∉ reservedMessages

/-- A look that ends a watch says something else. -/
def Observation.Plain : Observation → Prop
  | .satisfied found | .gone found => found.message ∉ reservedMessages
  | .unmet _ => True

theorem Observation.plain_ofOutcome {o : Outcome} (plain : o.Plain) :
    (Observation.ofOutcome o).Plain := by
  unfold ofOutcome
  split
  · rename_i success
    exact plain success
  · trivial

/-- The values of an access are of some kind. -/
def Page.Access.Finds (Q : α → Prop) (a : Access α) : Prop :=
  Yields (fun r => ∀ x, r = .ok x → Q x) a.run

namespace Page.Access

variable {α β : Type} {Q : α → Prop} {R : β → Prop}

theorem finds_pure {x : α} (h : Q x) : Finds Q (pure x) := by
  rintro y ⟨⟩
  exact h

theorem Finds.bind {a : Access α} {f : α → Access β} (ha : Finds Q a)
    (hf : ∀ x, Q x → Finds R (f x)) : Finds R (a >>= f) := by
  unfold Finds
  rw [run_bind_eq]
  refine Yields.bind ha ?_
  intro r hr
  cases r with
  | error e => rintro x ⟨⟩
  | ok x => exact hf x (hr x rfl)

/-- Whatever was found before. -/
theorem finds_bind {a : Access α} {f : α → Access β} (hf : ∀ x, Finds R (f x)) :
    Finds R (a >>= f) := by
  have any : Finds (fun _ => True) a := yields_of_forall (fun r x _ => trivial) a.run
  exact any.bind fun x _ => hf x

end Page.Access

namespace Probe

open Page.Access

theorem plain_judge (subject : String) (op : Operator) (expected actual : String) :
    (judge subject op expected actual).Plain := by
  unfold judge
  cases op.holds? actual expected with
  | none => exact Bool.noConfusion
  | some b =>
      cases b with
      | false => exact Bool.noConfusion
      | true => exact fun _ => not_reserved_of_ending _ " verified" (by decide)

theorem lookState_plain (state : ElementState) (el : Handle) :
    Finds Outcome.Plain (lookState state el) := by
  refine finds_bind fun obstacle => ?_
  cases obstacle with
  | some reason => exact finds_pure (fun success => by cases success)
  | none =>
      exact finds_pure fun _ => not_reserved_of_start "State verification passed: element is " _ (by decide)

theorem lookAccess_plain (p : Probe) (watching : Bool) :
    Finds Observation.Plain (p.lookAccess watching) :=
  match p with
  | .page target op expected =>
      finds_bind fun actual => finds_pure (Observation.plain_ofOutcome (plain_judge _ _ _ _))
  | .text el op expected => by
      have read : Finds Observation.Plain (do
          return .ofOutcome (judge "Text" op expected (← Verification.shownText el))) := by
        refine finds_bind fun actual => ?_
        exact finds_pure (Observation.plain_ofOutcome (plain_judge _ _ _ _))
      cases watching with
      | false => exact read
      | true =>
          refine finds_bind fun shown => ?_
          cases shown with
          | false => exact finds_pure trivial
          | true => exact read
  | .attribute el subject op expected locator => by
      refine finds_bind fun there => ?_
      cases there with
      | false =>
          exact finds_pure (not_reserved_of_start
            "Element removed from DOM during attribute verification: " _ (by decide))
      | true =>
          refine finds_bind fun actual => ?_
          exact finds_pure (Observation.plain_ofOutcome (plain_judge _ _ _ _))
  | .state el wanted => by
      refine finds_bind fun there => ?_
      cases there with
      | some el =>
          refine (lookState_plain wanted el).bind fun o plain => ?_
          exact finds_pure (Observation.plain_ofOutcome plain)
      | none =>
          refine finds_pure ?_
          split
          · show Verification.hiddenBecauseAbsent.message ∉ reservedMessages
            decide
          · trivial

theorem expired_not_reserved (p : Probe) (last : Outcome) (milliseconds : Nat) :
    (p.expired last milliseconds).message ∉ reservedMessages := by
  have timedOut : "Verification" ++ (" timed out after " ++ toString (milliseconds / 1000)
      ++ " seconds") ∉ reservedMessages := by
    rw [String.append_assoc, ← String.append_assoc]
    exact not_reserved_of_start ("Verification" ++ " timed out after ") _ (by decide)
  cases p with
  | page target op expected =>
      unfold expired
      simp only [Outcome.fail, Outcome.withActual, String.append_assoc]
      exact not_reserved_of_start "Page " _ (by decide)
  | _ => exact timedOut

theorem look_plain (p : Probe) (watching : Bool) : Yields Observation.Plain (p.look watching) := by
  refine Yields.bind (lookAccess_plain p watching) fun r plain => ?_
  cases r with
  | ok found => exact plain found rfl
  | error e => trivial

end Probe

namespace Watch

/-- What watches ask. None ends with a reserved message. -/
inductive Telling : surroundings.Request → Prop
  | page (r : Page.Request) : Telling (.inl r)
  | report (purpose : Purpose) (satisfied : Bool) (found : Outcome)
      (message : found.message ∉ reservedMessages) :
      Telling (.inr (.report purpose satisfied found))
  | other (r : Request) (silent : ∀ purpose satisfied found, r ≠ .report purpose satisfied found) :
      Telling (.inr r)

namespace Job

variable (j : Job)

theorem leave_asks : Asks Telling j.leave :=
  ⟨.other _ (by rintro _ _ _ ⟨⟩), fun _ => trivial⟩

theorem finish_asks (satisfied : Bool) {found : Outcome}
    (plain : found.message ∉ reservedMessages) : Asks Telling (j.finish satisfied found) :=
  ⟨.report _ _ _ plain, fun _ => j.leave_asks⟩

theorem looking_asks {next : Observation → Prog surroundings (Option Job)}
    (asks : ∀ seen, seen.Plain → Asks Telling (next seen)) : Asks Telling (j.looking next) := by
  have look : Asks Telling ((j.probe.look true).within : Prog surroundings Observation) :=
    asks_run (by intro r; exact ⟨.page r, fun _ => trivial⟩) _
  refine look.bind_of_yields (j.probe.look_plain true).run fun seen plain => ?_
  refine ⟨.other _ (by rintro _ _ _ ⟨⟩), fun stopped => ?_⟩
  cases stopped with
  | true => exact j.leave_asks
  | false => exact asks seen plain

theorem expire_asks : Asks Telling j.expire := by
  refine j.looking_asks fun seen plain => ?_
  cases seen with
  | satisfied found => exact j.finish_asks true plain
  | unmet found | gone found => exact j.finish_asks false (j.probe.expired_not_reserved _ _)

theorem await_asks : Asks Telling j.await := by
  refine ⟨.other _ (by rintro _ _ _ ⟨⟩), fun wake => ?_⟩
  cases wake with
  | stopped => exact j.leave_asks
  | expired => exact j.expire_asks
  | tick | change | lagged | closed => trivial

theorem turn_asks : Asks Telling j.turn := by
  unfold turn
  split
  · exact j.leave_asks
  · split
    · refine j.looking_asks fun seen plain => ?_
      cases seen with
      | satisfied found => exact j.finish_asks true plain
      | gone found => exact j.finish_asks false plain
      | unmet found => exact j.await_asks
    · exact j.await_asks

end Job

end Watch

end BrowserScript
