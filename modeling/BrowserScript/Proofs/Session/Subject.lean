import Mathlib
import BrowserScript.Proofs.Sandbox.Look
import BrowserScript.Session.Watching

/-!
The element a verify statement is about. A step looks below the heading of its command first, then
on the whole page, and at last for a description in any letter case. A statement that is watched
is looked for on the whole page only. On a page that stays as it is, the two find the same element
just when the other two lookups make no difference.
-/

namespace BrowserScript

open Page (Handle)

namespace Locator

open Prog

variable (w : (r : Page.timed.Request) → Page.timed.Answer r)

/-- The answers of the page alone. -/
def onlyPage (r : Page.Request) : Page.signature.Answer r := w (.inl r)

theorem still_liftM {α : Type} (p : Prog Page.signature α) :
    (liftM p : Prog Page.timed α).still w = p.still (onlyPage w) := still_run w _ p

/-- On a page that stays as it is it makes no difference how often an element is looked for. -/
theorem still_findWithin (description : String) (delay attempts : Nat) :
    (findWithin description delay (attempts + 1)).still w =
      (found (attempt description)).still (onlyPage w) := by
  induction attempts with
  | zero =>
      refine (still_bind w (liftM (found (attempt description))) _).trans ?_
      rw [still_liftM]
      cases (found (attempt description)).still (onlyPage w) <;> rfl
  | succ attempts ih =>
      refine (still_bind w (liftM (found (attempt description))) _).trans ?_
      rw [still_liftM]
      cases once : (found (attempt description)).still (onlyPage w) with
      | some el => rfl
      -- the next attempt misses again
      | none => exact ih.trans once

theorem still_find (patience : Patience) (description : String) :
    (find patience description).still w =
      (found (attempt (bare description))).still (onlyPage w) := by
  unfold find
  split
  · exact still_liftM w _
  · rename_i some
    obtain ⟨n, more⟩ := Nat.exists_eq_succ_of_ne_zero some
    rw [more]
    exact still_findWithin w _ _ n

end Locator

/-! ## Three lookups -/

section Lookups

variable (page : (r : Page.Request) → Page.signature.Answer r)

def belowHeading (s : Settings) (c : Command) (locator : String) : Option Handle :=
  c.header.bind fun heading => (Locator.findUnderHeading heading locator s.headingDepth).still page

def onWholePage (locator : String) : Option Handle :=
  (Locator.found (Locator.attempt (Locator.bare locator))).still page

def byDescription (locator : String) : Option Handle := (Locator.findDescribed locator).still page

end Lookups

namespace Run

open Prog

variable (w : (r : surroundings.Request) → surroundings.Answer r)

def onlyPage (r : Page.Request) : Page.signature.Answer r := w (.inl (.inl r))

theorem still_onPage {α : Type} (p : Prog Page.signature α) :
    (onPage p).still w = p.still (onlyPage w) := still_run w _ p

theorem still_lookup (s : Settings) (patience : Locator.Patience) (c : Command) (locator : String) :
    (lookup s patience c locator).still w =
      (belowHeading (onlyPage w) s c locator).or
        ((onWholePage (onlyPage w) locator).or (byDescription (onlyPage w) locator)) := by
  have elsewhere : (lookup s patience { c with header := none } locator).still w =
      (onWholePage (onlyPage w) locator).or (byDescription (onlyPage w) locator) := by
    refine (still_bind w (liftM (Locator.find patience locator)) _).trans ?_
    have same : (liftM (Locator.find patience locator) : Prog surroundings _).still w =
        onWholePage (onlyPage w) locator :=
      (still_run w _ _).trans (Locator.still_find _ patience locator)
    rw [same]
    cases onWholePage (onlyPage w) locator with
    | some el => rfl
    | none => exact still_onPage w _
  unfold lookup belowHeading
  split
  · rename_i heading there
    let under := Locator.findUnderHeading heading locator s.headingDepth
    refine (still_bind w (onPage under) _).trans ?_
    rw [still_onPage, there, Option.bind_some]
    cases (Locator.findUnderHeading heading locator s.headingDepth).still (onlyPage w) with
    | some el => rfl
    | none =>
        rw [Option.none_or]
        exact elsewhere
  · rename_i other
    cases there : c.header with
    | some heading => exact absurd there (other heading)
    | none =>
        rw [Option.bind_none, Option.none_or]
        exact elsewhere

theorem still_subjectOf {s : Settings} {c : Command} {v : Verification} {locator : String}
    (at_ : v.locator = some locator) :
    ((subjectOf s c v).still w).toOption.join = (lookup s s.patience c locator).still w := by
  unfold subjectOf
  split
  · cases at_
  · rename_i none
    cases at_.symm.trans none
  · rename_i there
    cases at_.symm.trans there
    refine (congrArg (fun x : Except String (Option Handle) => x.toOption.join)
      (still_bind w (lookup s s.patience c locator) _)).trans ?_
    cases (lookup s s.patience c locator).still w <;> rfl

end Run

namespace Session

open Prog

variable (w : (r : surroundings.Request) → surroundings.Answer r)

def onlyPage (r : Page.Request) : Page.signature.Answer r := w (.inl (.inl r))

theorem still_find (s : Settings) (locator : String) :
    (find s locator).still w = onWholePage (onlyPage w) locator :=
  (still_run w _ _).trans (Locator.still_find _ s.patience locator)

/-- The element that is watched for a verification. -/
def watchedElement (s : Settings) (v : Verification) : Option Handle :=
  ((probeFor s v).still w).toOption.bind Probe.element?

/-- The element that a step checks. -/
def checkedElement (s : Settings) (c : Command) (v : Verification) : Option Handle :=
  ((Run.subjectOf s c v).within.still w).toOption.join

variable {w} {s : Settings} {c : Command} {v : Verification} {locator : String}

theorem still_needed (probe : Handle → Probe) (about : ∀ el, (probe el).element? = some el) :
    ((needed s locator probe).still w).toOption.bind Probe.element? =
      onWholePage (onlyPage w) locator := by
  have found : (needed s locator probe).still w = _ := still_bind w (find s locator) _
  rw [found, still_find]
  cases onWholePage (onlyPage w) locator with
  | some el => exact about el
  | none => rfl

theorem watchedElement_eq (at_ : v.locator = some locator) :
    watchedElement w s v = onWholePage (onlyPage w) locator := by
  unfold watchedElement
  rcases v with ⟨op, expected, _⟩ | ⟨subject, op, expected, _⟩ | ⟨state, _⟩ | ⟨target, op, expected⟩
  · cases at_
    exact still_needed _ fun _ => rfl
  · cases at_
    exact still_needed _ fun _ => rfl
  · cases at_
    cases state with
    | hidden =>
        have found : (probeFor s (.state .hidden (some locator))).still w = _ :=
          still_bind w (find s locator) _
        rw [found, still_find]
        generalize onWholePage (onlyPage w) locator = el
        rfl
    | visible | enabled | checked | disabled =>
        exact still_needed (fun el => .state (some el) _) fun _ => rfl
  · cases at_

theorem checkedElement_eq (at_ : v.locator = some locator) :
    checkedElement w s c v = (belowHeading (onlyPage w) s c locator).or
      ((onWholePage (onlyPage w) locator).or (byDescription (onlyPage w) locator)) := by
  have found : ((Run.subjectOf s c v).within : Program _).still w =
      (Run.subjectOf s c v).still fun r => (Signature.Within.ask r : Program _).still w :=
    still_run w _ _
  rw [checkedElement, found, Run.still_subjectOf _ at_, Run.still_lookup]
  rfl

theorem watchable_of_locator (reads : c.verification = .ok v) (at_ : v.locator = some locator)
    (named : locator ≠ "") : Board.watchable c = .ok v := by
  simp [Board.watchable, reads, at_, named]

theorem eq_or_iff {α : Type} {first second third : Option α} :
    second = first.or (second.or third) ↔
      (∀ a, first = some a → second = some a) ∧
        (first = none → second = none → third = none) := by
  cases first <;> cases second <;> simp [eq_comm]

theorem isSome_or_iff {α : Type} {first second third : Option α} :
    second.isSome = (first.or (second.or third)).isSome ↔
      (second = none → first = none ∧ third = none) := by
  cases first <;> cases second <;> cases third <;> simp

/-- On a page that stays as it is, a statement is watched at the element of the whole page and
checked at the one below its heading, on the whole page or by description, the first that is there.
When these are the same, and when one is there just when the other is. -/
theorem watchedElement_eq_iff (reads : c.verification = .ok v) (at_ : v.locator = some locator)
    (named : locator ≠ "") :
    let heading := belowHeading (onlyPage w) s c locator
    let whole := onWholePage (onlyPage w) locator
    let described := byDescription (onlyPage w) locator
    Board.watchable c = .ok v ∧
      watchedElement w s v = whole ∧ checkedElement w s c v = heading.or (whole.or described) ∧
      (watchedElement w s v = checkedElement w s c v ↔
        (∀ el, heading = some el → whole = some el) ∧
          (heading = none → whole = none → described = none)) ∧
      ((watchedElement w s v).isSome = (checkedElement w s c v).isSome ↔
        (whole = none → heading = none ∧ described = none)) := by
  intro heading whole described
  have watched : watchedElement w s v = whole := watchedElement_eq at_
  have checked : checkedElement w s c v = heading.or (whole.or described) := checkedElement_eq at_
  refine ⟨watchable_of_locator reads at_ named, watched, checked, ?_, ?_⟩
  · rw [watched, checked]
    exact eq_or_iff
  · rw [watched, checked]
    exact isSome_or_iff

/-! ### A field below a heading -/

namespace Billing

def script : String := "under 'Billing'\n  verify value equals 'Paris' in \"City\""

/-- The field is found below its heading alone. -/
def page : (r : Page.Request) → Page.signature.Answer r
  | .xpath _ none => .ok [⟨1⟩]
  | .xpath _ (some _) => .ok [⟨2⟩]
  | .tag _ => .ok "span"
  | .first _ => .ok none
  | .all _ => .ok []
  | _ => .error (.backend "")

def atRest : (r : surroundings.Request) → surroundings.Answer r
  | .inl (.inl r) => page r
  | .inl (.inr (.inl r)) => .ok (r.find {})
  | .inl (.inr (.inr (.inl r))) => (Desk.serve r {}).1
  | .inl (.inr (.inr (.inr .enrol))) => (0, none)
  | .inl (.inr (.inr (.inr (.isStopped _)))) => false
  | .inl (.inr (.inr (.inr (.wait _)))) => .closed
  | .inl (.inr (.inr (.inr (.report ..)))) | .inl (.inr (.inr (.inr (.leave _))))
  | .inl (.inr (.inr (.inr (.stop _)))) | .inl (.inr (.inr (.inr (.join _)))) => ()
  | .inr (.clock .now) => (0 : Nat)
  | .inr (.clock (.sleep _)) | .inr .pause | .inr (.start _) | .inr (.gather _) => ()

def heading : Command :=
  { line := 0, code := ["under", "'Billing'"], src := "under 'Billing'", timeout := 5000 }

def command : Command :=
  { line := 1, code := ["verify", "\"Paris\"", "in", "\"City\""],
    src := "verify value equals 'Paris' in \"City\"", timeout := 5000,
    verifyType := some .value, verifyOperator := some .equals, verifyExpected := some "Paris",
    verifyLocator := some "City", header := some "Billing" }

def verification : Verification := .attribute .value .equals "Paris" (some "City")

set_option maxRecDepth 8000 in
theorem parsed :
    Block.preorderAll (Script.parse ⟨[], []⟩ 5000 script) = [heading, command] := by cbv

theorem whole : onWholePage (onlyPage atRest) "City" = none := by
  have bare : Locator.bare "City" = "City" := by cbv
  have noPath : Text.startsWith "City" "//" = false := by cbv
  unfold onWholePage Locator.attempt
  rw [bare, noPath]
  rfl

theorem below : belowHeading (onlyPage atRest) {} command "City" = some ⟨2⟩ := by
  rfl

end Billing

theorem watchedElement_eq_iff_below_heading :
    Billing.command ∈ Block.preorderAll (Script.parse ⟨[], []⟩ 5000 Billing.script) ∧
    (Billing.command.verification = .ok Billing.verification ∧
      Billing.verification.locator = some "City" ∧ "City" ≠ "") ∧
    (let page := onlyPage Billing.atRest
    let heading := belowHeading page {} Billing.command "City"
    let whole := onWholePage page "City"
    let described := byDescription page "City"
    Board.watchable Billing.command = .ok Billing.verification ∧
      watchedElement Billing.atRest {} Billing.verification = whole ∧
      checkedElement Billing.atRest {} Billing.command Billing.verification =
        heading.or (whole.or described) ∧
      (watchedElement Billing.atRest {} Billing.verification =
          checkedElement Billing.atRest {} Billing.command Billing.verification ↔
        (∀ el, heading = some el → whole = some el) ∧
          (heading = none → whole = none → described = none)) ∧
      ((watchedElement Billing.atRest {} Billing.verification).isSome =
          (checkedElement Billing.atRest {} Billing.command Billing.verification).isSome ↔
        (whole = none → heading = none ∧ described = none))) ∧
    watchedElement Billing.atRest {} Billing.verification = none ∧
    checkedElement Billing.atRest {} Billing.command Billing.verification = some ⟨2⟩ := by
  refine ⟨?_, ⟨rfl, rfl, by decide⟩, watchedElement_eq_iff rfl rfl (by decide), ?_, ?_⟩
  · rw [Billing.parsed]
    exact List.mem_cons_of_mem _ (.head _)
  · rw [watchedElement_eq rfl, Billing.whole]
  · rw [checkedElement_eq rfl, Billing.below, Option.some_or]

end Session

end BrowserScript
