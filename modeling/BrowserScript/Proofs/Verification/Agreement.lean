import BrowserScript.Proofs.Page.Still
import BrowserScript.Proofs.Program.Transcript
import BrowserScript.Session.Watching
import BrowserScript.Verification.Once

/-!
Checks and looks. A step checks a verification once; a statement that is set up is looked at, not
yet watching, before it is watched. On a page that stays as it is the two agree, but for what a
look at a state passes over: transparency and the class `hidden`. Main statement: `check_iff_look`.

Nothing is said of looks while watching: there a text counts only when its element is shown.
-/

namespace BrowserScript

open Prog
open Page (Handle Access Answers)

variable {w : Answers} {el : Option Handle} {h : Handle} {p : Probe} {v : Verification}

/-- The probe for a verification at an element, if it has the element it needs. An element that is
looked at for an attribute goes by a name. -/
def Verification.probe? (v : Verification) (el : Option Handle) (named : String) : Option Probe :=
  match v with
  | .text op expected _ => el.map (.text · op expected)
  | .attribute subject op expected _ => el.map (.attribute · subject op expected named)
  | .state wanted _ => some (.state el wanted)
  | .page target op expected => some (.page target op expected)

/-- The state that is verified, if it is one. -/
def Verification.state? : Verification → Option ElementState
  | .state wanted _ => some wanted
  | _ => none

/-- A check at the element succeeds. -/
def Verification.Succeeds (w : Answers) (v : Verification) (el : Option Handle) : Prop :=
  ((check v el).still w).success = true

/-- A look, not watching, finds the condition satisfied. -/
def Probe.Holds (w : Answers) (p : Probe) : Prop :=
  ∃ found, (p.look false).still w = .satisfied found

/-- A program that gives a probe gives one for the verification. -/
def Verification.Probed (v : Verification) (r : Except Verification.Outcome Probe) : Prop :=
  ∀ p, r = .ok p → ∃ el named, v.probe? el named = some p

theorem needed_probed {v : Verification} {probe : Handle → Probe} (s : Settings)
    (locator named : String) (fits : ∀ h, v.probe? (some h) named = some (probe h)) :
    Yields v.Probed (Session.needed s locator probe) := by
  refine (yields_of_forall (fun _ => trivial) (Session.find s locator)).bind fun found _ => ?_
  cases found with
  | none => rintro p ⟨⟩
  | some h =>
      rintro p ⟨⟩
      exact ⟨some h, named, fits h⟩

/-- What a session sets up for a statement is looked at by such a probe. -/
theorem probeFor_probed (s : Settings) (v : Verification) :
    Yields v.Probed (Session.probeFor s v) := by
  match v with
  | .page .. =>
      rintro p ⟨⟩
      exact ⟨none, "", rfl⟩
  | .text _ _ locator => exact needed_probed s (locator.getD "") "" fun _ => rfl
  | .attribute _ _ _ (some locator) => exact needed_probed s locator locator fun _ => rfl
  | .attribute _ _ _ none => rintro p ⟨⟩
  | .state .hidden none =>
      rintro p ⟨⟩
      exact ⟨none, "", rfl⟩
  | .state .hidden (some locator) =>
      refine (yields_of_forall (fun _ => trivial) (Session.find s locator)).bind fun found _ => ?_
      rintro p ⟨⟩
      exact ⟨found, "", rfl⟩
  | .state .visible locator | .state .enabled locator | .state .checked locator
  | .state .disabled locator => exact needed_probed s (locator.getD "") "" fun _ => rfl

theorem map_eq_ok_iff {ε α β : Type} {x : Except ε α} {f : α → β} {b : β} :
    x.map f = .ok b ↔ ∃ a, x = .ok a ∧ f a = b := by
  cases x <;> simp [Except.map]

/-! ## Texts that are compared -/

namespace Verification

theorem succeeds_iff :
    v.Succeeds w el ↔ ∃ o, (checkAccess v el).given w = .ok o ∧ o.success = true := by
  have whole : (check v el).still w = _ := still_bind w (checkAccess v el).result _
  rw [Succeeds, whole, Access.given, Access.result]
  cases (checkAccess v el).run.still w with
  | error e => simp [still, Prog.run, Outcome.fail]
  | ok o => simp [still, Prog.run, pure]

theorem success_judge {subject noun expected actual : String} {op : Operator} :
    (judge subject noun op expected actual).success = true ↔
      op.holds? actual expected = some true := by
  unfold judge
  rcases op.holds? actual expected with _ | _ | _ <;>
    simp [Outcome.withActual, Outcome.pass, Outcome.fail]

/-- A check that compares a text succeeds when the text is read and compares so. -/
theorem succeeds_judge {subject noun expected : String} {op : Operator} (read : Access String)
    (reads : checkAccess v el =
      read >>= fun actual => pure (judge subject noun op expected actual)) :
    v.Succeeds w el ↔
      ∃ actual, read.given w = .ok actual ∧ op.holds? actual expected = some true := by
  simp only [succeeds_iff, reads, Access.given_bind_pure, map_eq_ok_iff]
  constructor
  · rintro ⟨o, ⟨actual, found, rfl⟩, success⟩
    exact ⟨actual, found, success_judge.mp success⟩
  · rintro ⟨actual, found, so⟩
    exact ⟨_, ⟨actual, found, rfl⟩, success_judge.mpr so⟩

end Verification

namespace Probe

theorem holds_iff :
    p.Holds w ↔ ∃ found, (p.lookAccess false).given w = .ok (.satisfied found) := by
  have whole : (p.look false).still w = _ := still_bind w (p.lookAccess false).result _
  rw [Holds, whole, Access.given, Access.result]
  cases (p.lookAccess false).run.still w <;> simp [still, Prog.run, pure]

theorem ofOutcome_eq_satisfied_iff {o found : Verification.Outcome} :
    Observation.ofOutcome o = .satisfied found ↔ o = found ∧ o.success = true := by
  unfold Observation.ofOutcome
  split <;> simp_all

theorem success_judge {subject expected actual : String} {op : Operator} :
    (judge subject op expected actual).success = true ↔
      op.holds? actual expected = some true := by
  unfold judge
  rcases op.holds? actual expected with _ | _ | _ <;>
    simp [Verification.Outcome.withActual, Verification.Outcome.pass, Verification.Outcome.fail]

/-- A look that compares a text is satisfied when the text is read and compares so. -/
theorem holds_judge {subject expected : String} {op : Operator} (read : Access String)
    (reads : (p.lookAccess false).given w =
      Access.given w
        (read >>= fun actual => pure (.ofOutcome (judge subject op expected actual)))) :
    p.Holds w ↔
      ∃ actual, read.given w = .ok actual ∧ op.holds? actual expected = some true := by
  simp only [holds_iff, reads, Access.given_bind_pure, map_eq_ok_iff, ofOutcome_eq_satisfied_iff]
  constructor
  · rintro ⟨o, actual, found, -, success⟩
    exact ⟨actual, found, success_judge.mp success⟩
  · rintro ⟨actual, found, so⟩
    exact ⟨_, actual, found, rfl, success_judge.mpr so⟩

end Probe

/-! ## States -/

/-- An element that is part of the document, and no element, are what they are. -/
theorem given_attached (there : ∀ h ∈ el, w (.isConnected h) = .ok true) :
    (Verification.attached el).given w = .ok el := by
  cases el with
  | none => rfl
  | some h =>
      have known := Page.given_isAttached w h
      rw [there h rfl] at known
      exact Access.given_bind_ok known _

namespace Verification

theorem succeeds_state (there : w (.isConnected h) = .ok true) (wanted : ElementState)
    (locator : Option String) : (Verification.state wanted locator).Succeeds w (some h) ↔
      (stateHolds wanted h).given w = .ok true := by
  have known : (Verification.attached (some h)).given w = .ok (some h) :=
    given_attached fun _ mem => Option.some.inj mem ▸ there
  have read : (checkAccess (.state wanted locator) (some h)).given w = _ :=
    Access.given_bind_ok known _
  rw [succeeds_iff, read, Access.given_bind_pure]
  cases (stateHolds wanted h).given w with
  | error e => simp [Except.map]
  | ok holds => cases holds <;> simp [Except.map, Outcome.pass, Outcome.fail]

/-- Where there is no element, there is one state that can be verified. -/
theorem succeeds_absent (wanted : ElementState) (locator : Option String) :
    (Verification.state wanted locator).Succeeds w none ↔ wanted = .hidden := by
  have read : (checkAccess (.state wanted locator) none).given w = .ok (if wanted = .hidden then
      hiddenBecauseAbsent else .fail "Element not found for state verification") := rfl
  rw [succeeds_iff, read]
  by_cases hidden : wanted = .hidden <;>
    simp [hidden, hiddenBecauseAbsent, Outcome.pass, Outcome.fail]

end Verification

namespace Probe

open Verification (Outcome stateHolds isTrue isTruthy)

/-- A look at a state says that all is well just when nothing keeps the element out of it. -/
theorem lookState_success {wanted : ElementState} :
    (∃ o, (lookState wanted h).given w = .ok o ∧ o.success = true) ↔
      (stateObstacle wanted h).given w = .ok none := by
  have read : (lookState wanted h).given w = _ := Access.given_bind (stateObstacle wanted h) _
  rw [read]
  rcases (stateObstacle wanted h).given w with e | _ | reason
  · constructor
    · rintro ⟨o, found, -⟩
      cases found
    · intro found
      cases found
  · exact ⟨fun _ => rfl, fun _ => ⟨_, rfl, rfl⟩⟩
  · constructor
    · rintro ⟨o, found, success⟩
      obtain rfl := Except.ok.inj found
      cases success
    · intro found
      cases found

theorem holds_state (there : w (.isConnected h) = .ok true) (wanted : ElementState) :
    (Probe.state (some h) wanted).Holds w ↔ (stateObstacle wanted h).given w = .ok none := by
  have known : (Verification.attached (some h)).given w = .ok (some h) :=
    given_attached fun _ mem => Option.some.inj mem ▸ there
  have read : ((Probe.state (some h) wanted).lookAccess false).given w =
      Access.given w (lookState wanted h >>= fun o => pure (.ofOutcome o)) :=
    Access.given_bind_ok known _
  rw [holds_iff, read, Access.given_bind_pure, ← lookState_success]
  simp only [map_eq_ok_iff, ofOutcome_eq_satisfied_iff]
  constructor
  · rintro ⟨_, o, found, rfl, success⟩
    exact ⟨o, found, success⟩
  · rintro ⟨o, found, success⟩
    exact ⟨o, o, found, rfl, success⟩

theorem holds_absent (wanted : ElementState) :
    (Probe.state none wanted).Holds w ↔ wanted = .hidden := by
  have read : ((Probe.state none wanted).lookAccess false).given w = .ok (if wanted = .hidden then
      .satisfied Verification.hiddenBecauseAbsent
    else .unmet (.fail ("State verification failed: " ++ "element is not " ++ wanted.word ++
      " (not in DOM)"))) := rfl
  rw [holds_iff, read]
  by_cases hidden : wanted = .hidden <;> simp [hidden]

/-- What keeps an element out of a state keeps the state from it, and nothing else does, unless
visibility is verified. -/
theorem stateObstacle_eq_none_iff {wanted : ElementState}
    (other : wanted ≠ .visible ∧ wanted ≠ .hidden) :
    (stateObstacle wanted h).given w = .ok none ↔ (stateHolds wanted h).given w = .ok true := by
  cases wanted with
  | visible => exact absurd rfl other.1
  | hidden => exact absurd rfl other.2
  | enabled =>
      simp only [stateObstacle, stateHolds, Access.given_bind_pure, map_eq_ok_iff]
      refine exists_congr fun truthy => and_congr_right fun _ => ?_
      cases truthy <;> simp
  | disabled | checked =>
      simp only [stateObstacle, stateHolds, Access.given_bind_pure, map_eq_ok_iff]
      constructor
      · rintro ⟨holds, found, clear⟩
        cases holds with
        | true => exact found
        | false => cases clear
      · exact fun found => ⟨true, found, rfl⟩

end Probe

/-! ## Visibility -/

section Visibility

open Verification (stateHolds)

theorem stateHolds_visible_iff : (stateHolds .visible h).given w = .ok true ↔
    ∃ info, (Page.visibility h).given w = .ok info ∧ info.isVisible = true := by
  rw [stateHolds, Access.given_bind_pure, map_eq_ok_iff]

theorem stateHolds_hidden_iff : (stateHolds .hidden h).given w = .ok true ↔
    ∃ info, (Page.visibility h).given w = .ok info ∧ info.isVisible = false := by
  simp only [stateHolds, Access.given_bind_pure, map_eq_ok_iff, Bool.not_eq_true']

theorem stateObstacle_visible_iff : (Probe.stateObstacle .visible h).given w = .ok none ↔
    ∃ info, (Page.visibility h).given w = .ok info ∧ info.isRendered = true := by
  rw [Probe.stateObstacle, Access.given_bind_pure, map_eq_ok_iff]
  refine exists_congr fun info => and_congr_right fun _ => ?_
  cases info.isRendered <;> simp

theorem stateObstacle_hidden_iff : (Probe.stateObstacle .hidden h).given w = .ok none ↔
    ∃ info, (Page.visibility h).given w = .ok info ∧ info.isRendered = false := by
  rw [Probe.stateObstacle, Access.given_bind_pure, map_eq_ok_iff]
  refine exists_congr fun info => and_congr_right fun _ => ?_
  cases info.isRendered <;> simp

/-- What can be seen is rendered. -/
theorem isRendered_of_isVisible {info : Page.Visibility} (visible : info.isVisible = true) :
    info.isRendered = true := by
  simp only [Page.Visibility.isVisible, Bool.and_eq_true] at visible
  exact visible.1.1

/-- Where visibility can be read, an element is checked to be visible or to be hidden, not both. -/
theorem succeeds_visible_iff {info : Page.Visibility} (there : w (.isConnected h) = .ok true)
    (seen : w (.visibility h) = .ok info) (locator : Option String) :
    (Verification.state .visible locator).Succeeds w (some h) ↔
      ¬ (Verification.state .hidden locator).Succeeds w (some h) := by
  have read : (Page.visibility h).given w = .ok info := seen
  rw [Verification.succeeds_state there, Verification.succeeds_state there, stateHolds_visible_iff,
    stateHolds_hidden_iff]
  simp [read]

theorem holds_visible_iff {info : Page.Visibility} (there : w (.isConnected h) = .ok true)
    (seen : w (.visibility h) = .ok info) :
    (Probe.state (some h) .visible).Holds w ↔ ¬ (Probe.state (some h) .hidden).Holds w := by
  have read : (Page.visibility h).given w = .ok info := seen
  rw [Probe.holds_state there, Probe.holds_state there, stateObstacle_visible_iff,
    stateObstacle_hidden_iff]
  simp [read]

end Visibility

/-! ## Checks and looks -/

/-- All but visibility is checked as it is looked at. -/
theorem succeeds_iff_holds {named : String} (probed : v.probe? el named = some p)
    (attached : ∀ h ∈ el, w (.isConnected h) = .ok true)
    (other : v.state? ≠ some .visible ∧ v.state? ≠ some .hidden) :
    v.Succeeds w el ↔ p.Holds w := by
  rcases v with ⟨op, expected, _⟩ | ⟨subject, op, expected, _⟩ | ⟨wanted, _⟩ |
    ⟨target, op, expected⟩
  · obtain ⟨h, rfl, rfl⟩ := Option.map_eq_some_iff.mp probed
    rw [Verification.succeeds_judge (Verification.shownText h) rfl,
      Probe.holds_judge (Verification.shownText h) rfl]
  · obtain ⟨h, rfl, rfl⟩ := Option.map_eq_some_iff.mp probed
    have there := Page.given_isAttached w h
    rw [attached h rfl] at there
    rw [Verification.succeeds_judge (Verification.attributeValue h subject) rfl,
      Probe.holds_judge (Verification.attributeValue h subject)
        (Access.given_bind_ok there _)]
  · obtain rfl := Option.some.inj probed
    cases el with
    | none => rw [Verification.succeeds_absent, Probe.holds_absent]
    | some h =>
        have there := attached h rfl
        have free : wanted ≠ .visible ∧ wanted ≠ .hidden := by
          simpa [Verification.state?] using other
        rw [Verification.succeeds_state there, Probe.holds_state there,
          Probe.stateObstacle_eq_none_iff free]
  · obtain rfl := Option.some.inj probed
    cases target with
    | title | url =>
        rw [Verification.succeeds_judge (Verification.pageText _) rfl,
          Probe.holds_judge (Verification.pageText _) rfl]

theorem eq_state_of_state? {wanted : ElementState} (own : v.state? = some wanted) :
    ∃ locator, v = .state wanted locator := by
  rcases v with _ | _ | ⟨state, locator⟩ | _
  case state =>
    obtain rfl := Option.some.inj own
    exact ⟨locator, rfl⟩
  all_goals cases own

/-- On a page that stays as it is, a check at an attached element succeeds just when a look that is
not watching is satisfied there, unless visibility is verified. An element that is checked to be
visible is also seen so, and one that is seen to be hidden is also checked so; where visibility can
be read, either way it has just one of the two states. -/
theorem check_iff_look (w : Answers) (v : Verification) (el : Option Handle) (named : String)
    (p : Probe) (probed : v.probe? el named = some p)
    (attached : ∀ h ∈ el, w (.isConnected h) = .ok true) :
    (v.state? ≠ some .visible → v.state? ≠ some .hidden → (v.Succeeds w el ↔ p.Holds w)) ∧
    (v.state? = some .visible → v.Succeeds w el → p.Holds w) ∧
    (v.state? = some .hidden → p.Holds w → v.Succeeds w el) ∧
    ∀ h ∈ el, ∀ info, w (.visibility h) = .ok info → ∀ locator,
      ((Verification.state .visible locator).Succeeds w el ↔
        ¬ (Verification.state .hidden locator).Succeeds w el) ∧
      ((Probe.state el .visible).Holds w ↔ ¬ (Probe.state el .hidden).Holds w) := by
  refine ⟨fun visible hidden => succeeds_iff_holds probed attached ⟨visible, hidden⟩, ?_, ?_, ?_⟩
  · intro own visible
    obtain ⟨locator, rfl⟩ := eq_state_of_state? own
    obtain rfl := Option.some.inj probed
    cases el with
    | none => cases (Verification.succeeds_absent _ _).mp visible
    | some h =>
        have there := attached h rfl
        rw [Verification.succeeds_state there, stateHolds_visible_iff] at visible
        rw [Probe.holds_state there, stateObstacle_visible_iff]
        obtain ⟨info, read, visible⟩ := visible
        exact ⟨info, read, isRendered_of_isVisible visible⟩
  · intro own hidden
    obtain ⟨locator, rfl⟩ := eq_state_of_state? own
    obtain rfl := Option.some.inj probed
    cases el with
    | none => exact (Verification.succeeds_absent _ _).mpr rfl
    | some h =>
        have there := attached h rfl
        rw [Probe.holds_state there, stateObstacle_hidden_iff] at hidden
        rw [Verification.succeeds_state there, stateHolds_hidden_iff]
        obtain ⟨info, read, unrendered⟩ := hidden
        refine ⟨info, read, Bool.eq_false_iff.mpr fun visible => ?_⟩
        exact Bool.eq_false_iff.mp unrendered (isRendered_of_isVisible visible)
  · rintro h mem info seen locator
    obtain rfl := Option.mem_def.mp mem
    exact ⟨succeeds_visible_iff (attached h rfl) seen locator,
      holds_visible_iff (attached h rfl) seen⟩

namespace Watched

/-! A field that is not displayed and has no property for its value, only the attribute. -/

def field : Handle := ⟨1⟩

def page : Answers
  | .property .. => .ok none
  | .attribute _ name => .ok (if name = "value" then some " Rome " else none)
  | .visibility _ => .ok ⟨"none", "visible", 1, 100, 20, false⟩
  | .isConnected el => .ok (decide (el = field) : Bool)
  | .title | .url => .ok ""
  | _ => .error (.backend "")

def value : Verification := .attribute .value .equals "Rome" (some "City")

def probe : Probe := .attribute field .value .equals "Rome" "City"

theorem check_iff_look_field :
    value.probe? (some field) "City" = some probe ∧
    (∀ h ∈ some field, page (.isConnected h) = .ok true) ∧
    (value.Succeeds page (some field) ↔ probe.Holds page) ∧ value.Succeeds page (some field) ∧
    ((Verification.state .visible none).Succeeds page (some field) ↔
      ¬ (Verification.state .hidden none).Succeeds page (some field)) ∧
    ((Probe.state (some field) .visible).Holds page ↔
      ¬ (Probe.state (some field) .hidden).Holds page) := by
  have attached : ∀ h ∈ some field, page (.isConnected h) = .ok true := by
    rintro h ⟨⟩
    rfl
  obtain ⟨alike, -, -, one⟩ := check_iff_look page value (some field) "City" probe rfl attached
  have rome : ((Verification.check value (some field)).still page).success = true := by
    decide +kernel
  exact ⟨rfl, attached, alike (by decide) (by decide), rome, one field rfl _ rfl none⟩

end Watched

end BrowserScript
