import BrowserScript.Verification.Board

/-!
How the statements on a board change: one lemma for each thing that can be done to a board, which
says what becomes of the entry of any key.
-/

namespace BrowserScript.Board

open Verification (Outcome)

variable {b : Board} {key k : String} {c : Command} {found : Outcome} {probe : Probe} {watch : Nat}

/-- How the status of a statement can change while it stays on the board. -/
inductive Status.Leads : Status → Status → Prop
  | stay (s : Status) : Leads s s
  | activate : Leads .pending .active
  | settle {s t : Status} (opened : s.isFinal = false) (final : t.isFinal = true) : Leads s t

theorem Status.Leads.trans {s t u : Status} (first : Leads s t) (second : Leads t u) :
    Leads s u := by
  cases first with
  | stay => exact second
  | activate =>
      cases second with
      | stay => exact .activate
      | settle opened final => exact .settle rfl final
  | settle opened final =>
      cases second with
      | stay => exact .settle opened final
      | activate => cases final
      | settle reopened => exact absurd (reopened.symm.trans final) Bool.false_ne_true

namespace Entry

/-- The entry once a check has come to an end. -/
def settled (found : Outcome) (e : Entry) : Entry :=
  if e.status.isFinal then e
  else { e with status := if found.success then .complete else .failed }

def activated (probe : Probe) (e : Entry) : Entry :=
  if e.status = .pending then { e with status := .active, probe := some probe } else e

theorem settled_isFinal (found : Outcome) (e : Entry) : (e.settled found).status.isFinal := by
  unfold settled
  split
  · assumption
  · cases found.success <;> rfl

theorem settled_source (found : Outcome) (e : Entry) : (e.settled found).source = e.source := by
  unfold settled
  split <;> rfl

theorem settled_leads (found : Outcome) (e : Entry) :
    e.status.Leads (e.settled found).status := by
  by_cases final : e.status.isFinal
  · rw [settled, if_pos final]
    exact .stay _
  · exact .settle (by simpa using final) (e.settled_isFinal found)

theorem activated_isFinal (probe : Probe) (e : Entry) :
    (e.activated probe).status.isFinal = e.status.isFinal := by
  unfold activated
  split
  · rename_i pending
    rw [pending]
    rfl
  · rfl

theorem activated_source (probe : Probe) (e : Entry) : (e.activated probe).source = e.source := by
  unfold activated
  split <;> rfl

theorem activated_leads (probe : Probe) (e : Entry) :
    e.status.Leads (e.activated probe).status := by
  unfold activated
  split
  · rename_i pending
    rw [pending]
    exact .activate
  · exact .stay _

end Entry

theorem lookup_congr {b b' : Board} (same : b.entries = b'.entries) : b.entry? k = b'.entry? k := by
  unfold entry?
  rw [same]

theorem lookup_setEntry (b : Board) (key k : String) (e : Entry) :
    entry? (b.setEntry key e) k =
      if k = key then (b.entry? k).map fun _ => e else b.entry? k := by
  unfold setEntry entry?
  induction b.entries with
  | nil => split <;> rfl
  | cons head rest ih =>
      obtain ⟨name, old⟩ := head
      by_cases here : name = k
      · subst here
        by_cases same : name = key <;> simp [same]
      · have skip : ((name == k) = false) := by simpa using here
        simpa [List.find?_cons, skip] using ih

theorem lookup_changed {f : Entry → Entry} {e : Entry} (there : b.entry? key = some e)
    (k : String) : entry? (b.setEntry key (f e)) k =
      if k = key then (b.entry? k).map f else b.entry? k := by
  rw [lookup_setEntry]
  by_cases same : k = key
  · rw [if_pos same, if_pos same, same, there]
    rfl
  · rw [if_neg same, if_neg same]

theorem lookup_unchanged {f : Entry → Entry} (fixed : ∀ e, b.entry? key = some e → f e = e)
    (k : String) : (if k = key then (b.entry? k).map f else b.entry? k) = b.entry? k := by
  split
  · rename_i same
    subst same
    cases there : b.entry? k with
    | none => rfl
    | some e => exact congrArg some (fixed e there)
  · rfl

/-! ## Claims -/

/-- A statement is put on the board under its key, unless one is there. -/
theorem claim_cases (b : Board) (c : Command) :
    (∃ key, key? c = some key ∧ b.entry? key = none ∧ b.claim c =
      (some key, { b with entries := b.entries ++ [(key, { source := c.src })] })) ∨
    (∀ key, key? c = some key → b.entry? key ≠ none) ∧ b.claim c = (none, b) := by
  unfold claim
  cases named : key? c with
  | none => exact .inr ⟨nofun, rfl⟩
  | some key =>
      cases known : b.entry? key with
      | none => exact .inl ⟨key, rfl, known, by simp [known]⟩
      | some e =>
          refine .inr ⟨?_, by simp [known]⟩
          rintro _ ⟨⟩ unknown
          cases known.symm.trans unknown

theorem lookup_claim (b : Board) (c : Command) (k : String) :
    entry? (b.claim c).2 k =
      if (b.claim c).1 = some k then some { source := c.src } else b.entry? k := by
  obtain ⟨key, -, unknown, claimed⟩ | ⟨-, claimed⟩ := b.claim_cases c <;> rw [claimed]
  · have fresh : b.entries.find? (·.1 == key) = none := Option.map_eq_none_iff.mp unknown
    simp only [Option.some.injEq]
    unfold entry?
    rw [List.find?_append]
    by_cases same : key = k
    · subst same
      simp [fresh]
    · simp [same]
  · rfl

/-- Only what is not there is claimed. -/
theorem claim_eq_some_iff :
    (b.claim c).1 = some key ↔ key? c = some key ∧ b.entry? key = none := by
  obtain ⟨name, named, unknown, claimed⟩ | ⟨known, claimed⟩ := b.claim_cases c <;> rw [claimed]
  · constructor
    · rintro ⟨⟩
      exact ⟨named, unknown⟩
    · rintro ⟨own, -⟩
      exact named.symm.trans own
  · exact ⟨nofun, fun ⟨own, unknown⟩ => absurd unknown (known key own)⟩

theorem results_claim (b : Board) (c : Command) : (b.claim c).2.results = b.results := by
  obtain ⟨key, -, -, claimed⟩ | ⟨-, claimed⟩ := b.claim_cases c <;> rw [claimed]

/-! ## Verdicts -/

/-- An open statement is settled with a verdict on its source; nothing happens otherwise. -/
theorem settle_cases (b : Board) (key : String) (found : Outcome) :
    (∃ e, b.entry? key = some e ∧ e.status.isFinal = false ∧ b.settle key found =
      (some ⟨e.source, found.success, found.message⟩, { b.setEntry key (e.settled found) with
        results := recordIn ⟨e.source, found.success, found.message⟩ b.results })) ∨
    (∀ e, b.entry? key = some e → e.status.isFinal) ∧ b.settle key found = (none, b) := by
  unfold settle
  cases there : b.entry? key with
  | none => exact .inr ⟨nofun, rfl⟩
  | some e =>
      cases final : e.status.isFinal with
      | false =>
          refine .inl ⟨e, rfl, final, ?_⟩
          rw [Entry.settled, final]
          simp [final, setEntry]
      | true =>
          refine .inr ⟨?_, by simp [final]⟩
          rintro _ ⟨⟩
          exact final

theorem lookup_settle (b : Board) (key : String) (found : Outcome) (k : String) :
    entry? (b.settle key found).2 k =
      if k = key then (b.entry? k).map (·.settled found) else b.entry? k := by
  obtain ⟨e, there, -, settled⟩ | ⟨final, settled⟩ := b.settle_cases key found <;> rw [settled]
  · exact lookup_changed (f := (·.settled found)) there k
  · exact (lookup_unchanged (fun e there => if_pos (final e there)) k).symm

/-- A statement is settled with a verdict on its source when it is there and still open. -/
theorem settle_eq (b : Board) (key : String) (found : Outcome) :
    (b.settle key found).1 =
      ((b.entry? key).filter fun e => !e.status.isFinal).map
        fun e => ⟨e.source, found.success, found.message⟩ := by
  obtain ⟨e, there, opened, settled⟩ | ⟨final, settled⟩ := b.settle_cases key found <;>
    rw [settled]
  · simp [there, Option.filter, opened]
  · cases there : b.entry? key with
    | none => rfl
    | some e => simp [Option.filter, final e there]

theorem settle_of_none (none : (b.settle key found).1 = none) : (b.settle key found).2 = b := by
  obtain ⟨e, -, -, settled⟩ | ⟨-, settled⟩ := b.settle_cases key found
  · rw [settled] at none
    cases none
  · rw [settled]

theorem results_settle (b : Board) (key : String) (found : Outcome) :
    (b.settle key found).2.results =
      (b.settle key found).1.elim b.results fun v => recordIn v b.results := by
  obtain ⟨e, -, -, settled⟩ | ⟨-, settled⟩ := b.settle_cases key found <;>
    · rw [settled]
      rfl

/-! ## Watches -/

/-- A pending statement becomes active with its watch; nothing happens otherwise. -/
theorem activate_cases (b : Board) (key : String) (probe : Probe) (watch : Nat) :
    (∃ e, b.entry? key = some e ∧ e.status = .pending ∧ b.activate key probe watch =
      (true, { b.setEntry key (e.activated probe) with watches := b.watches ++ [watch] })) ∨
    (∀ e, b.entry? key = some e → e.status ≠ .pending) ∧
      b.activate key probe watch = (false, b) := by
  unfold activate
  cases there : b.entry? key with
  | none => exact .inr ⟨nofun, rfl⟩
  | some e =>
      by_cases pending : e.status = .pending
      · refine .inl ⟨e, rfl, pending, ?_⟩
        rw [Entry.activated, if_pos pending]
        simp [pending, setEntry]
      · refine .inr ⟨?_, by simp [pending]⟩
        rintro _ ⟨⟩
        exact pending

theorem lookup_activate (b : Board) (key : String) (probe : Probe) (watch : Nat) (k : String) :
    entry? (b.activate key probe watch).2 k =
      if k = key then (b.entry? k).map (·.activated probe) else b.entry? k := by
  obtain ⟨e, there, -, active⟩ | ⟨other, active⟩ := b.activate_cases key probe watch <;>
    rw [active]
  · exact lookup_changed (f := (·.activated probe)) there k
  · exact (lookup_unchanged (fun e there => if_neg (other e there)) k).symm

theorem results_activate (b : Board) (key : String) (probe : Probe) (watch : Nat) :
    (b.activate key probe watch).2.results = b.results := by
  obtain ⟨e, -, -, active⟩ | ⟨-, active⟩ := b.activate_cases key probe watch
  · rw [active]
    rfl
  · rw [active]

/-! ## Statements that are not settled -/

theorem mem_outstanding {e : Entry} (there : b.entry? key = some e)
    (opened : e.status.isFinal = false) : (key, e.probe) ∈ b.outstanding := by
  obtain ⟨⟨name, e'⟩, found, rfl⟩ := Option.map_eq_some_iff.mp there
  have same : name = key := by simpa using List.find?_some found
  subst same
  refine List.mem_mergeSort.mpr (List.mem_map.mpr ⟨(name, e'), ?_, rfl⟩)
  exact List.mem_filter.mpr ⟨List.mem_of_find?_eq_some found, by simp [opened]⟩

end BrowserScript.Board
