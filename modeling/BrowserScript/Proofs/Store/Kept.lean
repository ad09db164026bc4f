import BrowserScript.Proofs.Program.Transcript
import BrowserScript.Store.Basic

/-!
A state that is kept between the requests of a program: a request finds what the ones before it
left there. Only the stop flag can be changed by others, at any time.
-/

namespace BrowserScript.Store

def Request.apply (r : Request) (s : State) : State := r.change?.getD id s

/-- The requests of a transcript were all answered, from a state that others only stop, and led
to this state. -/
inductive Kept : State → List signature.Event → State → Prop
  | nil (s : State) : Kept s [] s
  | cons {s s' : State} {r : Request} {t : List signature.Event} (stop : Bool)
      (rest : Kept (r.apply { s with stop }) t s') :
      Kept s (⟨r, .ok (r.find (r.apply { s with stop }))⟩ :: t) s'

theorem kept_append_iff {s s' : State} {t u : List signature.Event} :
    Kept s (t ++ u) s' ↔ ∃ m, Kept s t m ∧ Kept m u s' := by
  constructor
  · intro h
    induction t generalizing s with
    | nil => exact ⟨s, .nil s, h⟩
    | cons e t ih =>
        cases h with
        | cons stop rest =>
            obtain ⟨m, hm, hu⟩ := ih rest
            exact ⟨m, .cons stop hm, hu⟩
  · rintro ⟨m, ht, hu⟩
    induction ht with
    | nil => exact hu
    | cons stop rest ih => exact .cons stop (ih hu)

theorem Kept.answered {s s' : State} {t : List signature.Event} (h : Kept s t s') :
    ∀ e ∈ t, ∃ x, e.2 = .ok x := by
  induction h with
  | nil => simp
  | cons stop rest ih =>
      intro e he
      rcases List.mem_cons.mp he with rfl | he
      · exact ⟨_, rfl⟩
      · exact ih e he

/-- Looking at the stop flag leaves the cursor where it is. -/
theorem Kept.cursor_of_looks {s s' : State} {t : List signature.Event} (h : Kept s t s')
    (looks : ∀ e ∈ t, e.1 = .stopFlag) : s'.cursor = s.cursor := by
  induction h with
  | nil => rfl
  | @cons s s' r t stop rest ih =>
      obtain rfl : r = .stopFlag := looks _ (List.mem_cons_self ..)
      exact ih fun e he => looks e (List.mem_cons_of_mem _ he)

/-- Only a request for it changes the tree. -/
theorem Kept.tree_eq {s s' : State} {t : List signature.Event} (h : Kept s t s')
    (others : ∀ e ∈ t, ∀ tree, e.1 ≠ .setTree tree) : s'.tree = s.tree := by
  induction h with
  | nil => rfl
  | @cons s s' r t stop rest ih =>
      have same : (r.apply { s with stop }).tree = s.tree := by
        cases r with
        | setTree tree => exact absurd rfl (others _ (List.mem_cons_self ..) tree)
        | _ => rfl
      rw [ih fun e he => others e (List.mem_cons_of_mem _ he), same]

/-! ## Requests that fail -/

/-- Requests that change how far the last run came or what it runs. -/
def Request.Places : Request → Prop
  | .setTree _ | .setCursor _ | .clearCursor => True
  | _ => False

/-- The requests of a transcript were answered, or failed and left the state as it was; others only
stop it. -/
inductive Survives : State → List signature.Event → State → Prop
  | nil (s : State) : Survives s [] s
  | answered {s s' : State} {r : Request} {t : List signature.Event} (stop : Bool)
      (rest : Survives (r.apply { s with stop }) t s') :
      Survives s (⟨r, .ok (r.find (r.apply { s with stop }))⟩ :: t) s'
  | failed {s s' : State} {r : Request} {t : List signature.Event} (stop : Bool) (e : Error)
      (rest : Survives { s with stop } t s') : Survives s (⟨r, .error e⟩ :: t) s'

theorem survives_append_iff {s s' : State} {t u : List signature.Event} :
    Survives s (t ++ u) s' ↔ ∃ m, Survives s t m ∧ Survives m u s' := by
  constructor
  · intro h
    induction t generalizing s with
    | nil => exact ⟨s, .nil s, h⟩
    | cons e t ih =>
        cases h with
        | answered stop rest =>
            obtain ⟨m, hm, hu⟩ := ih rest
            exact ⟨m, .answered stop hm, hu⟩
        | failed stop e rest =>
            obtain ⟨m, hm, hu⟩ := ih rest
            exact ⟨m, .failed stop e hm, hu⟩
  · rintro ⟨m, ht, hu⟩
    induction ht with
    | nil => exact hu
    | answered stop rest ih => exact .answered stop (ih hu)
    | failed stop e rest ih => exact .failed stop e (ih hu)

theorem Survives.places {s s' : State} {t : List signature.Event} (h : Survives s t s')
    (others : ∀ e ∈ t, ¬ e.1.Places) : s'.tree = s.tree ∧ s'.cursor = s.cursor := by
  induction h with
  | nil => exact ⟨rfl, rfl⟩
  | @answered s s' r t stop rest ih =>
      obtain ⟨tree, cursor⟩ := ih fun e he => others e (List.mem_cons_of_mem _ he)
      rw [tree, cursor]
      have other := others _ (List.mem_cons_self ..)
      cases r with
      | setTree | setCursor | clearCursor => exact absurd trivial other
      | _ => exact ⟨rfl, rfl⟩
  | failed stop e rest ih => exact ih fun e he => others e (List.mem_cons_of_mem _ he)

end BrowserScript.Store
