import BrowserScript.Proofs.Session.History
import BrowserScript.Proofs.Verification.Message

/-!
What the programs of a session ask. Most of it is mild: it settles and activates statements at
most, and never says of one that nobody looked at it.
-/

namespace BrowserScript.Session

open Prog
open Usability (notYetMet)
open Verification (Outcome)

@[match_pattern] abbrev toStore (r : Store.Request) : surroundings.Request := .inl (.inr (.inl r))

inductive Mild : surroundings.Request → Prop
  | page (r : Page.Request) : Mild (toPage r)
  | store (r : Store.Request) : Mild (toStore r)
  | scheduler (r : Tasks.Request Job) : Mild (.inr r)
  | tell (e : Run.Event) : Mild (toDesk (.tell e))
  | settle (key : String) (found : Outcome) (message : found.message ≠ notYetMet) :
      Mild (toDesk (.settle key found))
  | activate (key : String) (probe : Probe) (watch : Nat) :
      Mild (toDesk (.activate key probe watch))
  | stopWatches : Mild (toDesk .stopWatches)
  | outstanding : Mild (toDesk .outstanding)
  | results : Mild (toDesk .results)
  | test : Mild (toDesk .test)
  | report (purpose : Watch.Purpose) (satisfied : Bool) (found : Outcome)
      (message : found.message ≠ notYetMet) : Mild (toWatch (.report purpose satisfied found))
  | watch (r : Watch.Request)
      (silent : ∀ purpose satisfied found, r ≠ .report purpose satisfied found) : Mild (toWatch r)

namespace Mild

variable {r : surroundings.Request}

theorem message_ne (mild : Mild r) {key : String} {found : Outcome}
    (settling : settling? r = some (key, found)) : found.message ≠ notYetMet := by
  cases mild with
  | settle name found message =>
      cases settling
      exact message
  | report purpose satisfied found message =>
      cases purpose with
      | statement name =>
          cases settling
          exact message
      | caller name => cases settling
  | watch r silent =>
      cases r with
      | report purpose satisfied found => exact absurd rfl (silent purpose satisfied found)
      | _ => cases settling
  | _ => cases settling

theorem unclaimed (mild : Mild r) (x : surroundings.Answer r) : claimed? ⟨r, x⟩ = none := by
  cases mild <;> rfl

end Mild

theorem ne_notYetMet {message : String} (plain : message ∉ reservedMessages) :
    message ≠ notYetMet := by
  rintro rfl
  exact plain (List.mem_cons_self ..)

/-! ## Programs that cannot fail among those that can -/

theorem within_self (p : Program α) : (p.within : Program α) = p := by
  induction p with
  | done a => rfl
  | ask r next ih =>
      rcases r with (r | r | r | r) | r <;> exact congrArg (Prog.ask _) (funext ih)

theorem run_lift_eq (p : Program α) : (liftM p : Access α).run = p.bind fun a => .done (.ok a) := by
  show (p.within : Program α).bind _ = _
  rw [within_self]
  rfl

theorem ran_lift_iff {p : Program α} {t : List surroundings.Event} {r : Except Error α} :
    Ran (liftM p : Access α).run t r ↔ ∃ a, r = .ok a ∧ Ran p t a := by
  rw [run_lift_eq, ran_bind_iff]
  constructor
  · rintro ⟨t₁, a, t₂, rfl, h, last⟩
    obtain ⟨rfl, rfl⟩ := ran_done_iff.mp last
    rw [List.append_nil]
    exact ⟨a, rfl, h⟩
  · rintro ⟨a, rfl, h⟩
    exact ⟨t, a, [], (List.append_nil t).symm, h, .done _⟩

theorem ran_lift_bind {p : Program α} {f : α → Access β} {t : List surroundings.Event}
    {r : Except Error β} (ran : Ran (liftM p >>= f).run t r) :
    ∃ t₁ a t₂, t = t₁ ++ t₂ ∧ Ran p t₁ a ∧ Ran (f a).run t₂ r := by
  rw [run_bind_eq] at ran
  obtain ⟨t₁, x, t₂, rfl, lifted, rest⟩ := ran_bind_iff.mp ran
  obtain ⟨a, rfl, first⟩ := ran_lift_iff.mp lifted
  exact ⟨t₁, a, t₂, rfl, first, rest⟩

theorem asks_lift {P : surroundings.Request → Prop} {p : Program α} (hp : Asks P p) :
    Asks P (liftM p : Access α).run := by
  rw [run_lift_eq]
  exact hp.bind fun _ => trivial

theorem run_discard_eq (a : Access α) :
    (discard a).run = a.run.bind fun r => .done (r.map fun _ => ()) := by
  show a.run.bind _ = _
  congr 1
  funext r
  cases r <;> rfl

/-! ## Jobs -/

theorem onPage_mild (p : Prog Page.signature α) : Asks Mild (onPage p) := by
  refine asks_run ?_ p
  intro r
  exact ⟨.page r, fun _ => trivial⟩

theorem settle_mild (key : String) {found : Outcome} (plain : found.message ∉ reservedMessages) :
    Asks Mild (settle key found) :=
  ⟨.settle key found (ne_notYetMet plain), fun _ => trivial⟩

theorem find_mild (s : Settings) (locator : String) : Asks Mild (find s locator) := by
  refine asks_run ?_ _
  intro r
  cases r with
  | inl r => exact ⟨.page r, fun _ => trivial⟩
  | inr r => exact ⟨.scheduler (.clock r), fun _ => trivial⟩

/-- The end of a setup without a probe. -/
def Plain : Except Outcome Probe → Prop
  | .error failure => failure.message ∉ reservedMessages
  | .ok _ => True

theorem needed_plain (s : Settings) (locator : String) (probe : Page.Handle → Probe) :
    Asks Mild (needed s locator probe) ∧ Yields Plain (needed s locator probe) := by
  constructor
  · refine (find_mild s locator).bind fun el => ?_
    cases el <;> trivial
  · refine (yields_of_forall (fun _ => trivial) (find s locator)).bind fun el _ => ?_
    cases el with
    | some el => trivial
    | none =>
        exact not_reserved_of_start "Element not found for verification: " locator (by decide)

theorem probeFor_plain (s : Settings) (v : Verification) :
    Asks Mild (probeFor s v) ∧ Yields Plain (probeFor s v) :=
  match v with
  | .page .. => ⟨trivial, trivial⟩
  | .text _ _ locator => needed_plain s (locator.getD "") _
  | .attribute _ _ _ (some locator) => needed_plain s locator _
  | .attribute _ _ _ none =>
      ⟨trivial, show _ ∉ reservedMessages by decide⟩
  | .state .hidden none => ⟨trivial, trivial⟩
  | .state .hidden (some locator) =>
      ⟨(find_mild s locator).bind fun _ => trivial,
        (yields_of_forall (fun _ => trivial) (find s locator)).bind fun _ _ => trivial⟩
  | .state .visible locator | .state .enabled locator | .state .checked locator
  | .state .disabled locator => needed_plain s (locator.getD "") _

theorem watchable_plain {c : Command} {message : String}
    (refused : Board.watchable c = .error message) : message ∉ reservedMessages := by
  unfold Board.watchable at refused
  split at refused
  · cases refused
    exact not_reserved_of_start "Unknown operator: " _ (by decide)
  · cases refused
    decide
  · split at refused
    · cases refused
      decide
    · cases refused

theorem watchStatement_mild (s : Settings) (key : String) (probe : Probe) :
    Asks Mild (watchStatement s key probe) := by
  refine ⟨.watch _ (by rintro _ _ _ ⟨⟩), fun (id, position) => ?_⟩
  refine ⟨.activate key probe id, fun active => ?_⟩
  cases active with
  | false => trivial
  | true => exact ⟨.scheduler _, fun now => ⟨.scheduler _, fun _ => trivial⟩⟩

theorem setUp_mild (s : Settings) (key : String) (c : Command) : Asks Mild (setUp s key c) := by
  unfold setUp
  split
  · rename_i message refused
    exact (settle_mild key (watchable_plain refused)).bind fun _ => trivial
  · rename_i v _
    obtain ⟨asks, plain⟩ := probeFor_plain s v
    refine asks.bind_of_yields plain fun made plain => ?_
    cases made with
    | error failure => exact (settle_mild key plain).bind fun _ => trivial
    | ok probe =>
        refine (onPage_mild _).bind_of_yields (probe.look_plain false).run fun seen plain => ?_
        cases seen with
        | satisfied found | gone found => exact (settle_mild key plain).bind fun _ => trivial
        | unmet found => exact watchStatement_mild s key probe

theorem code_mild (s : Settings) (job : Job) : Asks Mild (Job.code s job) := by
  cases job with
  | setup key c => exact (setUp_mild s key c).bind fun _ => trivial
  | watch j =>
      refine Asks.bind (Asks.run ?_ j.turn_asks) fun _ => trivial
      intro r telling
      cases telling with
      | page r => exact ⟨.page r, fun _ => trivial⟩
      | report purpose satisfied found message =>
          exact ⟨.report purpose satisfied found (ne_notYetMet message), fun _ => trivial⟩
      | other r silent => exact ⟨.watch r silent, fun _ => trivial⟩

end BrowserScript.Session
