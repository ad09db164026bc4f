import BrowserScript.Proofs.Program.Interleaving
import Mathlib.Data.List.Perm.Subperm

/-!
Which updates a text contains. An update reads the document, writes a draft with itself added, and
puts the draft in the place of the document; all updates share one draft. Here texts are kept as
ledgers, the lists of the updates they contain, so what becomes of the updates depends on the
schedule only.
-/

namespace BrowserScript.Store

open Schedule (endings)

inductive Phase
  | waiting
  | loaded (ledger : List Nat)
  | written
  | ended
  | failed

def Phase.turns : Phase → Nat
  | .waiting => 0
  | .loaded _ => 1
  | .written => 2
  | .ended | .failed => 3

structure Ledgers where
  document : List Nat := []
  draft : Option (List Nat) := none
  phase : Nat → Phase := fun _ => .waiting

namespace Ledgers

def step (g : Ledgers) (i : Nat) : Ledgers :=
  match g.phase i with
  | .waiting => { g with phase := Function.update g.phase i (.loaded g.document) }
  | .loaded l => { g with draft := some (l ++ [i]), phase := Function.update g.phase i .written }
  | .written =>
    match g.draft with
    | some l => ⟨l, none, Function.update g.phase i .ended⟩
    | none => { g with phase := Function.update g.phase i .failed }
  | .ended | .failed => g

inductive Step (g : Ledgers) (i : Nat) : Ledgers → Prop
  | read (h : g.phase i = .waiting) :
      Step g i { g with phase := Function.update g.phase i (.loaded g.document) }
  | write {l : List Nat} (h : g.phase i = .loaded l) :
      Step g i { g with draft := some (l ++ [i]), phase := Function.update g.phase i .written }
  | rename {l : List Nat} (h : g.phase i = .written) (draft : g.draft = some l) :
      Step g i ⟨l, none, Function.update g.phase i .ended⟩
  | fail (h : g.phase i = .written) (draft : g.draft = none) :
      Step g i { g with phase := Function.update g.phase i .failed }
  | idle (h : (g.phase i).turns = 3) : Step g i g

theorem step_spec (g : Ledgers) (i : Nat) : Step g i (g.step i) := by
  unfold step
  split
  case h_1 h => exact .read h
  case h_2 l h => exact .write h
  case h_3 h =>
    split
    case h_1 l draft => exact .rename h draft
    case h_2 draft => exact .fail h draft
  case h_4 h | h_5 h => exact .idle (by rw [h]; rfl)

theorem step_phase_of_ne {g g' : Ledgers} {i j : Nat} (h : Step g i g') (other : j ≠ i) :
    g'.phase j = g.phase j := by
  cases h with
  | idle => rfl
  | _ => exact Function.update_of_ne other ..

theorem step_turns {g g' : Ledgers} {i : Nat} (h : Step g i g') :
    (g'.phase i).turns = min ((g.phase i).turns + 1) 3 := by
  cases h with
  | idle h => rw [h]; rfl
  | read h | write h | rename h | fail h => simp [h, Phase.turns]

def after (p : List Nat) : Ledgers := p.foldl step {}

theorem after_concat (p : List Nat) (i : Nat) : after (p ++ [i]) = (after p).step i := by
  simp [after]

/-- How far an update is shows how often it had its turn. -/
theorem turns_after (p : List Nat) (i : Nat) : ((after p).phase i).turns = min (p.count i) 3 := by
  induction p using List.reverseRecOn with
  | nil => rfl
  | append_singleton p k ih =>
      rw [after_concat, List.count_append]
      have next := step_spec (after p) k
      by_cases h : i = k
      · subst h
        rw [step_turns next, ih, List.count_singleton_self]
        omega
      · rw [step_phase_of_ne next h, ih, List.count_singleton]
        simp [Ne.symm h]

/-- An update has begun and not ended. -/
def InProgress (p : List Nat) (i : Nat) : Prop := 0 < p.count i ∧ p.count i < 3

variable {p q : List Nat} {i j : Nat} {l : List Nat}

theorem inProgress_of_loaded (h : (after p).phase i = .loaded l) : InProgress p i := by
  have turns := turns_after p i
  rw [h, Phase.turns] at turns
  unfold InProgress
  omega

theorem inProgress_of_written (h : (after p).phase i = .written) : InProgress p i := by
  have turns := turns_after p i
  rw [h, Phase.turns] at turns
  unfold InProgress
  omega

def Busy (g : Ledgers) (i : Nat) : Prop := (∃ l, g.phase i = .loaded l) ∨ g.phase i = .written

theorem busy_of_inProgress (h : InProgress p i) : Busy (after p) i := by
  have turns := turns_after p i
  unfold InProgress at h
  cases phase : (after p).phase i with
  | loaded l => exact .inl ⟨l, phase⟩
  | written => exact .inr phase
  | waiting | ended | failed =>
      rw [phase, Phase.turns] at turns
      omega

theorem endings_of_written (h : (after p).phase i = .written) :
    endings 3 (p ++ [i]) = endings 3 p ++ [i] := by
  have turns := turns_after p i
  rw [h, Phase.turns] at turns
  rw [Schedule.endings_concat, if_pos (by omega)]

theorem endings_of_not_written (h : (after p).phase i ≠ .written) :
    endings 3 (p ++ [i]) = endings 3 p := by
  have turns := turns_after p i
  rw [Schedule.endings_concat, if_neg, List.append_nil]
  intro third
  cases phase : (after p).phase i with
  | written => exact h phase
  | _ =>
      rw [phase, Phase.turns] at turns
      omega

/-! ## One by one -/

/-- No two updates are in progress at the same time. -/
def OneByOne (schedule : List Nat) : Prop :=
  ∀ p, p <+: schedule → ∀ i j, InProgress p i → InProgress p j → i = j

/-- What an update has read or written so far is what the document has now. -/
def Fits (g : Ledgers) (i : Nat) : Phase → Prop
  | .waiting | .ended => True
  | .loaded l => l = g.document
  | .written => g.draft = some (g.document ++ [i])
  | .failed => False

/-- Nothing is lost so far: the document has every update that ended, in this order. -/
structure Complete (p : List Nat) (g : Ledgers) : Prop where
  document : g.document = endings 3 p
  fits : ∀ i, Fits g i (g.phase i)

theorem Complete.noFailure {g : Ledgers} (h : Complete p g) (i : Nat) : g.phase i ≠ .failed := by
  intro failed
  have fits := h.fits i
  rwa [failed] at fits

/-- What others do matters only to updates in progress. -/
theorem Complete.fits_of_idle (h : Complete p (after p)) (idle : ¬ InProgress p j) (g : Ledgers) :
    Fits g j ((after p).phase j) := by
  have fits := h.fits j
  cases phase : (after p).phase j with
  | waiting | ended => trivial
  | loaded l => exact absurd (inProgress_of_loaded phase) idle
  | written => exact absurd (inProgress_of_written phase) idle
  | failed => exact absurd phase (h.noFailure j)

theorem fits_update {g : Ledgers} {phase : Nat → Phase} {new : Phase} (hi : Fits g i new)
    (others : ∀ j, j ≠ i → Fits g j (phase j)) (j : Nat) :
    Fits g j (Function.update phase i new j) := by
  by_cases same : j = i
  · subst same
    rwa [Function.update_self]
  · rw [Function.update_of_ne same]
    exact others j same

theorem Complete.concat (h : Complete p (after p))
    (alone : ∀ j, InProgress p j → InProgress p i → j = i) :
    Complete (p ++ [i]) (after (p ++ [i])) := by
  rw [after_concat]
  have next := step_spec (after p) i
  have fits := h.fits i
  generalize (after p).step i = g at next
  cases next with
  | read waiting =>
      refine ⟨?_, fits_update rfl fun j _ => h.fits j⟩
      rw [endings_of_not_written (by rw [waiting]; nofun)]
      exact h.document
  | @write l loaded =>
      rw [loaded] at fits
      obtain rfl : l = (after p).document := fits
      refine ⟨?_, fits_update rfl fun j other => h.fits_of_idle ?_ _⟩
      · rw [endings_of_not_written (by rw [loaded]; nofun)]
        exact h.document
      · exact fun hj => other (alone j hj (inProgress_of_loaded loaded))
  | @rename l written draft =>
      rw [written] at fits
      obtain rfl : l = (after p).document ++ [i] := Option.some.inj (draft.symm.trans fits)
      refine ⟨?_, fits_update trivial fun j other => h.fits_of_idle ?_ _⟩
      · rw [endings_of_written written, h.document]
      · exact fun hj => other (alone j hj (inProgress_of_written written))
  | fail written draft =>
      rw [written] at fits
      cases draft.symm.trans fits
  | idle ended =>
      refine ⟨?_, h.fits⟩
      rw [endings_of_not_written (fun written => by rw [written] at ended; cases ended)]
      exact h.document

/-- Where updates are in progress one by one, none is lost and none fails. -/
theorem complete_of_oneByOne {schedule : List Nat} (h : OneByOne schedule) (p : List Nat)
    (hp : p <+: schedule) : Complete p (after p) := by
  induction p using List.reverseRecOn with
  | nil => exact ⟨rfl, fun _ => trivial⟩
  | append_singleton p i ih =>
      have before : p <+: schedule := (List.prefix_append p [i]).trans hp
      exact (ih before).concat fun j hj hi => h p before j i hj hi

/-! ## At the same time -/

theorem of_update {phase : Nat → Phase} {new found : Phase}
    (h : Function.update phase i new j = found) : j = i ∧ new = found ∨ j ≠ i ∧ phase j = found := by
  by_cases same : j = i
  · subst same
    exact .inl ⟨rfl, by rwa [Function.update_self] at h⟩
  · exact .inr ⟨same, by rwa [Function.update_of_ne same] at h⟩

/-- There is at most one draft that an update still has to put in place, and it is there. -/
structure Sole (g : Ledgers) : Prop where
  one : ∀ i j, g.phase i = .written → g.phase j = .written → i = j
  draft : ∀ i, g.phase i = .written → g.draft ≠ none

/-- Read backwards: each draft that is put in place was written since the last one was. -/
theorem Sole.of_step {g g' : Ledgers} (next : Step g i g') (noFailure : g'.phase i ≠ .failed)
    (h : Sole g') : Sole g := by
  cases next with
  | idle => exact h
  | fail => exact absurd (Function.update_self ..) noFailure
  | read waiting =>
      have same : ∀ j, g.phase j = .written →
          Function.update g.phase i (.loaded g.document) j = .written := by
        intro j hj
        refine (Function.update_of_ne ?_ ..).trans hj
        rintro rfl
        rw [waiting] at hj
        cases hj
      exact ⟨fun j k hj hk => h.one j k (same j hj) (same k hk), fun j hj => h.draft j (same j hj)⟩
  | @write l loaded =>
      have none : ∀ j, g.phase j ≠ .written := by
        intro j hj
        have other : j ≠ i := by
          rintro rfl
          rw [loaded] at hj
          cases hj
        exact other (h.one j i ((Function.update_of_ne other ..).trans hj) (Function.update_self ..))
      exact ⟨fun j _ hj => absurd hj (none j), fun j hj => absurd hj (none j)⟩
  | rename written draft =>
      have only : ∀ j, g.phase j = .written → j = i := by
        intro j hj
        by_contra other
        exact h.draft j ((Function.update_of_ne other ..).trans hj) rfl
      refine ⟨fun j k hj hk => (only j hj).trans (only k hk).symm, fun j _ => ?_⟩
      rw [draft]
      nofun

/-- A schedule in which every update that began came to its end. -/
def Finished (schedule : List Nat) : Prop := ∀ i, ¬ InProgress schedule i

theorem failed_append (h : (after p).phase i = .failed) (q : List Nat) :
    (after (p ++ q)).phase i = .failed := by
  induction q using List.reverseRecOn with
  | nil => rwa [List.append_nil]
  | append_singleton q j ih =>
      rw [← List.append_assoc, after_concat]
      by_cases same : i = j
      · subst same
        rwa [step, ih]
      · rwa [step_phase_of_ne (step_spec (after (p ++ q)) j) same]

theorem sole_of_noFailure {schedule : List Nat} (finished : Finished schedule)
    (noFailure : ∀ i, (after schedule).phase i ≠ .failed) (hp : p <+: schedule) :
    Sole (after p) := by
  obtain ⟨q, rfl⟩ := hp
  -- from the end of the schedule, where no draft is left
  induction q generalizing p with
  | nil =>
      rw [List.append_nil] at finished
      have none : ∀ j, (after p).phase j ≠ .written := fun j hj =>
        finished j (inProgress_of_written hj)
      exact ⟨fun j _ hj => absurd hj (none j), fun j hj => absurd hj (none j)⟩
  | cons i q ih =>
      rw [List.append_cons] at finished noFailure
      have later := ih finished noFailure
      rw [after_concat] at later
      refine later.of_step (step_spec (after p) i) fun failed => ?_
      rw [← after_concat] at failed
      exact noFailure i (failed_append failed q)

/-- No text has more updates than had ended when it was read, and its own. -/
structure Bounded (ended : Nat) (g : Ledgers) : Prop where
  document : g.document.length ≤ ended
  loaded : ∀ i l, g.phase i = .loaded l → l.length ≤ ended
  draft : ∀ l, g.draft = some l → l.length ≤ ended + 1

theorem Bounded.mono {g : Ledgers} {n m : Nat} (h : Bounded n g) (grows : n ≤ m) : Bounded m g :=
  ⟨Nat.le_trans h.document grows, fun j l hj => Nat.le_trans (h.loaded j l hj) grows,
    fun l hl => Nat.le_trans (h.draft l hl) (Nat.succ_le_succ grows)⟩

theorem Bounded.step {g g' : Ledgers} {n m : Nat} (next : Step g i g') (grows : n ≤ m)
    (more : g.phase i = .written → m = n + 1) (h : Bounded n g) : Bounded m g' := by
  have weak := h.mono grows
  cases next with
  | idle => exact weak
  | read waiting =>
      refine ⟨weak.document, fun j l hj => ?_, weak.draft⟩
      obtain ⟨-, hl⟩ | ⟨-, hj⟩ := of_update hj
      · cases hl
        exact weak.document
      · exact weak.loaded j l hj
  | @write l loaded =>
      refine ⟨weak.document, fun j l' hj => ?_, fun l' hl => ?_⟩
      · obtain ⟨-, hl⟩ | ⟨-, hj⟩ := of_update hj
        · cases hl
        · exact weak.loaded j l' hj
      · cases hl
        rw [List.length_append]
        exact Nat.succ_le_succ (weak.loaded i l loaded)
  | @rename l written found =>
      refine ⟨?_, fun j l' hj => ?_, nofun⟩
      · rw [more written]
        exact h.draft l found
      · obtain ⟨-, hl⟩ | ⟨-, hj⟩ := of_update hj
        · cases hl
        · exact weak.loaded j l' hj
  | fail written found =>
      refine ⟨weak.document, fun j l' hj => ?_, weak.draft⟩
      obtain ⟨-, hl⟩ | ⟨-, hj⟩ := of_update hj
      · cases hl
      · exact weak.loaded j l' hj

theorem Step.busy {g g' : Ledgers} (next : Step g i g') (h : Busy g j)
    (notEnding : j = i → g.phase i ≠ .written) : Busy g' j := by
  by_cases same : j = i
  · subst same
    obtain ⟨l, loaded⟩ := h.resolve_right (notEnding rfl)
    cases next with
    | write => exact .inr (Function.update_self ..)
    | idle h =>
        rw [loaded] at h
        cases h
    | read h | rename h | fail h => cases loaded.symm.trans h
  · rwa [Busy, step_phase_of_ne next same]

/-- Some update will not be in the document in the end. -/
inductive Doomed (ended : Nat) (g : Ledgers) : Prop
  /-- Two are in progress. -/
  | overlap {i j : Nat} (other : i ≠ j) (hi : Busy g i) (hj : Busy g j)
  /-- One ended after another had read. -/
  | stale {i : Nat} {l : List Nat} (loaded : g.phase i = .loaded l) (short : l.length < ended)
  | staleDraft {i : Nat} {l : List Nat} (written : g.phase i = .written) (draft : g.draft = some l)
      (short : l.length ≤ ended)
  /-- One is in no text any more. -/
  | lost (document : g.document.length < ended)
      (loaded : ∀ i l, g.phase i = .loaded l → l.length < ended)
      (draft : ∀ l, g.draft = some l → l.length ≤ ended)

/-- A draft that lacks an update takes the place of the document. -/
theorem Doomed.of_rename {g : Ledgers} {n : Nat} (bounded : Bounded n g) (short : l.length ≤ n) :
    Doomed (n + 1) ⟨l, none, Function.update g.phase i .ended⟩ := by
  refine .lost (Nat.lt_succ_of_le short) (fun j l' hj => ?_) nofun
  obtain ⟨-, hl⟩ | ⟨-, hj⟩ := of_update hj
  · cases hl
  · exact Nat.lt_succ_of_le (bounded.loaded j l' hj)

section Doom

variable {g g' : Ledgers} {n m k : Nat} (next : Step g i g')
include next

/-- When one of two ends, the other one has read before. -/
theorem Doomed.of_overlap (sole : Sole g) (bounded : Bounded n g)
    (more : g.phase i = .written → m = n + 1) (other : j ≠ k) (hj : Busy g j) (hk : Busy g k) :
    Doomed m g' := by
  by_cases ends : g.phase i = .written ∧ (i = j ∨ i = k)
  · obtain ⟨x, hx, other⟩ : ∃ x, Busy g x ∧ x ≠ i := by
      rcases ends.2 with rfl | rfl
      · exact ⟨k, hk, other.symm⟩
      · exact ⟨j, hj, other⟩
    obtain ⟨l, loaded⟩ | written := hx
    · refine .stale ((step_phase_of_ne next other).trans loaded) ?_
      rw [more ends.1]
      exact Nat.lt_succ_of_le (bounded.loaded x l loaded)
    · exact absurd (sole.one x i written ends.1) other
  · exact .overlap other (next.busy hj fun same written => ends ⟨written, .inl same.symm⟩)
      (next.busy hk fun same written => ends ⟨written, .inr same.symm⟩)

/-- One that has read too little writes too little. -/
theorem Doomed.of_stale (grows : n ≤ m) (loaded : g.phase j = .loaded l) (short : l.length < n) :
    Doomed m g' := by
  by_cases same : j = i
  · subst same
    cases next with
    | write loaded' =>
        obtain rfl := Phase.loaded.inj (loaded.symm.trans loaded')
        refine .staleDraft (Function.update_self ..) rfl ?_
        rw [List.length_append]
        exact Nat.le_trans short grows
    | idle h =>
        rw [loaded] at h
        cases h
    | read h | rename h | fail h => cases loaded.symm.trans h
  · exact .stale ((step_phase_of_ne next same).trans loaded) (Nat.lt_of_lt_of_le short grows)

/-- Nobody else writes while a draft is there. -/
theorem Doomed.of_staleDraft (noFailure : g'.phase i ≠ .failed) (sole : Sole g) (sole' : Sole g')
    (bounded : Bounded n g) (grows : n ≤ m) (more : g.phase i = .written → m = n + 1)
    (written : g.phase j = .written) (draft : g.draft = some l) (short : l.length ≤ n) :
    Doomed m g' := by
  by_cases same : j = i
  · subst same
    cases next with
    | rename _ found =>
        obtain rfl := Option.some.inj (draft.symm.trans found)
        rw [more written]
        exact .of_rename bounded short
    | fail => exact absurd (Function.update_self ..) noFailure
    | idle h =>
        rw [written] at h
        cases h
    | read h | write h => cases written.symm.trans h
  · have written' := (step_phase_of_ne next same).trans written
    cases next with
    | read | idle => exact .staleDraft written' draft (Nat.le_trans short grows)
    | write => exact absurd (sole'.one j i written' (Function.update_self ..)) same
    | rename h => exact absurd (sole.one j i written h) same
    | fail => exact absurd (Function.update_self ..) noFailure

/-- What is in no text does not come back. -/
theorem Doomed.of_lost (noFailure : g'.phase i ≠ .failed) (bounded : Bounded n g) (grows : n ≤ m)
    (more : g.phase i = .written → m = n + 1) (document : g.document.length < n)
    (loaded : ∀ j l, g.phase j = .loaded l → l.length < n)
    (draft : ∀ l, g.draft = some l → l.length ≤ n) : Doomed m g' := by
  have document' := Nat.lt_of_lt_of_le document grows
  have loaded' : ∀ j l, g.phase j = .loaded l → l.length < m := fun j l hj =>
    Nat.lt_of_lt_of_le (loaded j l hj) grows
  have draft' : ∀ l, g.draft = some l → l.length ≤ m := fun l hl =>
    Nat.le_trans (draft l hl) grows
  cases next with
  | idle => exact .lost document' loaded' draft'
  | read waiting =>
      refine .lost document' (fun j l hj => ?_) draft'
      obtain ⟨-, hl⟩ | ⟨-, hj⟩ := of_update hj
      · cases hl
        exact document'
      · exact loaded' j l hj
  | @write l hi =>
      refine .lost document' (fun j l' hj => ?_) (fun l' hl => ?_)
      · obtain ⟨-, hl⟩ | ⟨-, hj⟩ := of_update hj
        · cases hl
        · exact loaded' j l' hj
      · cases hl
        rw [List.length_append]
        exact loaded' i l hi
  | @rename l written found =>
      rw [more written]
      exact .of_rename bounded (draft l found)
  | fail => exact absurd (Function.update_self ..) noFailure

theorem Doomed.step (noFailure : g'.phase i ≠ .failed) (sole : Sole g) (sole' : Sole g')
    (bounded : Bounded n g) (grows : n ≤ m) (more : g.phase i = .written → m = n + 1)
    (h : Doomed n g) : Doomed m g' := by
  cases h with
  | overlap other hj hk => exact .of_overlap next sole bounded more other hj hk
  | stale loaded short => exact .of_stale next grows loaded short
  | staleDraft written draft short =>
      exact .of_staleDraft next noFailure sole sole' bounded grows more written draft short
  | lost document loaded draft =>
      exact .of_lost next noFailure bounded grows more document loaded draft

end Doom

theorem length_endings_of_written (h : (after p).phase i = .written) :
    (endings 3 (p ++ [i])).length = (endings 3 p).length + 1 := by
  rw [endings_of_written h, List.length_append]
  rfl

theorem length_endings_le (p : List Nat) (i : Nat) :
    (endings 3 p).length ≤ (endings 3 (p ++ [i])).length := by
  rw [Schedule.endings_concat, List.length_append]
  exact Nat.le_add_right ..

theorem bounded (p : List Nat) : Bounded (endings 3 p).length (after p) := by
  induction p using List.reverseRecOn with
  | nil => exact ⟨Nat.le_refl _, nofun, nofun⟩
  | append_singleton p i ih =>
      rw [after_concat]
      exact ih.step (step_spec (after p) i) (length_endings_le p i) length_endings_of_written

theorem doomed_append (finished : Finished (p ++ q))
    (noFailure : ∀ i, (after (p ++ q)).phase i ≠ .failed)
    (h : Doomed (endings 3 p).length (after p)) :
    Doomed (endings 3 (p ++ q)).length (after (p ++ q)) := by
  induction q generalizing p with
  | nil => rwa [List.append_nil]
  | cons i q ih =>
      have sole := sole_of_noFailure finished noFailure (List.prefix_append p (i :: q))
      rw [List.append_cons] at finished noFailure ⊢
      have sole' := sole_of_noFailure finished noFailure (List.prefix_append (p ++ [i]) q)
      refine ih finished noFailure ?_
      rw [after_concat] at sole' ⊢
      refine h.step (step_spec (after p) i) (fun failed => ?_) sole sole' (bounded p)
        (length_endings_le p i) length_endings_of_written
      rw [← after_concat] at failed
      exact noFailure i (failed_append failed q)

/-- Where two updates are in progress at the same time and none fails, one is lost. -/
theorem exists_lost {schedule : List Nat} (finished : Finished schedule)
    (noFailure : ∀ i, (after schedule).phase i ≠ .failed) (h : ¬ OneByOne schedule) :
    ∃ i ∈ endings 3 schedule, i ∉ (after schedule).document := by
  simp only [OneByOne, not_forall] at h
  obtain ⟨p, ⟨q, rfl⟩, i, j, hi, hj, other⟩ := h
  have doomed := doomed_append finished noFailure
    (.overlap other (busy_of_inProgress hi) (busy_of_inProgress hj))
  have short : (after (p ++ q)).document.length < (endings 3 (p ++ q)).length := by
    cases doomed with
    | overlap _ hi _ =>
        obtain ⟨l, hi⟩ | hi := hi
        · exact absurd (inProgress_of_loaded hi) (finished _)
        · exact absurd (inProgress_of_written hi) (finished _)
    | stale loaded _ => exact absurd (inProgress_of_loaded loaded) (finished _)
    | staleDraft written _ _ => exact absurd (inProgress_of_written written) (finished _)
    | lost document _ _ => exact document
  -- a shorter list does not have them all
  by_contra none
  simp only [not_exists, not_and, not_not] at none
  have nodup : (endings 3 (p ++ q)).Nodup := Schedule.nodup_endings (by decide) (p ++ q)
  exact absurd (List.Nodup.subperm nodup none).length_le (Nat.not_le.mpr short)

end Ledgers

end BrowserScript.Store
