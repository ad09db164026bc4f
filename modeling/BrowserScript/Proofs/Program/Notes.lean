import BrowserScript.Proofs.Program.Transcript

/-!
Programs that take notes. Nobody answers a note, so a program can be read without them: it asks the
same things then and ends with the same result. A note says where in the program a transcript has
come to, which the requests alone do not tell.
-/

namespace BrowserScript

/-- Surroundings in which notes can be taken. -/
abbrev Signature.noting (S : Signature) (N : Type) : Signature :=
  ⟨N ⊕ S.Request, Sum.elim (fun _ => Unit) S.Answer⟩

namespace Prog

variable {S : Signature} {N α β ε : Type}

/-- The program without its notes. -/
def erase : Prog (S.noting N) α → Prog S α
  | .done a => .done a
  | .ask (.inl _) next => erase (next ())
  | .ask (.inr r) next => .ask r fun x => erase (next x)

/-- A program as one that could take notes and takes none. -/
def noteless : Prog S α → Prog (S.noting N) α
  | .done a => .done a
  | .ask r next => .ask (.inr r) fun x => noteless (next x)

theorem erase_noteless (p : Prog S α) : erase (noteless p : Prog (S.noting N) α) = p := by
  induction p with
  | done a => rfl
  | ask r next ih => exact congrArg (ask r) (funext ih)

theorem Asks.noteless {P : (S.noting N).Request → Prop} {p : Prog S α}
    (hp : Asks (fun r => P (.inr r)) p) : Asks P (noteless p) := by
  induction p with
  | done a => trivial
  | ask r next ih => exact ⟨hp.1, fun x => ih x (hp.2 x)⟩

theorem erase_bind (p : Prog (S.noting N) α) (f : α → Prog (S.noting N) β) :
    erase (p.bind f) = (erase p).bind fun a => erase (f a) := by
  induction p with
  | done a => rfl
  | ask r next ih =>
      cases r with
      | inl n => exact ih ()
      | inr r => exact congrArg (ask r) (funext ih)

section Errors

variable {f : α → Prog (S.noting N) (Except ε β)} {g : α → Prog S (Except ε β)}
  (each : ∀ a, erase (f a) = g a)
include each

theorem erase_orEnd (x : Except ε α) : erase (orEnd f x) = orEnd g x := by
  cases x with
  | error e => rfl
  | ok a => exact each a

theorem erase_bind_orEnd {p : Prog (S.noting N) (Except ε α)} {q : Prog S (Except ε α)}
    (first : erase p = q) : erase (p.bind (orEnd f)) = q.bind (orEnd g) := by
  rw [erase_bind, first]
  exact congrArg q.bind (funext (erase_orEnd each))

end Errors

/-! ## Transcripts with notes -/

/-- What a program noted down, as it shows in its transcript. -/
def noted? : (S.noting N).Event → Option N
  | ⟨.inl n, _⟩ => some n
  | ⟨.inr _, _⟩ => none

/-- What others heard of a program. -/
def heard? : (S.noting N).Event → Option S.Event
  | ⟨.inl _, _⟩ => none
  | ⟨.inr r, x⟩ => some ⟨r, x⟩

def notes (u : List (S.noting N).Event) : List N := u.filterMap noted?

def heard (u : List (S.noting N).Event) : List S.Event := u.filterMap heard?

section Transcripts

variable {u v : List (S.noting N).Event} {r : S.Request} {x : S.Answer r} {n : N}

@[simp]
theorem notes_nil : notes ([] : List (S.noting N).Event) = [] := rfl

@[simp]
theorem notes_append : notes (u ++ v) = notes u ++ notes v := List.filterMap_append

theorem notes_ask : notes (⟨.inr r, x⟩ :: u) = notes u := rfl

theorem notes_ask_append : notes (⟨.inr r, x⟩ :: (u ++ v)) = notes u ++ notes v := notes_append

theorem notes_note {x : Unit} : notes (⟨.inl n, x⟩ :: u) = n :: notes u := rfl

end Transcripts

variable {p : Prog (S.noting N) α} {u v : List (S.noting N).Event} {t : List S.Event} {a b : α}

/-- A transcript of the program without its notes is one with notes of which others hear this. -/
theorem ran_erase_iff : Ran (erase p) t a ↔ ∃ u, Ran p u a ∧ heard u = t := by
  constructor
  · intro h
    induction p generalizing t with
    | done b =>
        obtain ⟨rfl, rfl⟩ := ran_done_iff.mp h
        exact ⟨[], .done _, rfl⟩
    | ask r next ih =>
        cases r with
        | inl n =>
            obtain ⟨u, hu, same⟩ := ih () h
            exact ⟨_, ran_ask_iff.mpr ⟨(), u, rfl, hu⟩, same⟩
        | inr r =>
            obtain ⟨x, rest, rfl, hx⟩ := ran_ask_iff.mp h
            obtain ⟨u, hu, rfl⟩ := ih x hx
            exact ⟨_, ran_ask_iff.mpr ⟨x, u, rfl, hu⟩, rfl⟩
  · rintro ⟨u, h, rfl⟩
    induction h with
    | done a => exact .done a
    | @ask r next t a x rest ih =>
        cases r with
        | inl n => exact ih
        | inr r => exact ran_ask_iff.mpr ⟨x, _, rfl, ih⟩

/-- What others heard of a program settles what it noted. -/
theorem Ran.eq_of_heard (hu : Ran p u a) (hv : Ran p v b)
    (same : heard u = heard v) : u = v := by
  induction hu generalizing v with
  | done a => exact (ran_done_iff.mp hv).1.symm
  | @ask r next t a x rest ih =>
      obtain ⟨y, w, rfl, hw⟩ := ran_ask_iff.mp hv
      cases r with
      | inl n => exact congrArg (_ :: ·) (ih hw same)
      | inr r =>
          obtain ⟨first, others⟩ := List.cons.inj same
          cases first
          exact congrArg (_ :: ·) (ih hw others)

theorem notes_noteless {p : Prog S α} (h : Ran (noteless p) u a) :
    notes u = [] := by
  induction p generalizing u with
  | done b =>
      obtain ⟨rfl, -⟩ := ran_done_iff.mp h
      rfl
  | ask r next ih =>
      obtain ⟨x, rest, rfl, hx⟩ := ran_ask_iff.mp h
      exact notes_ask.trans (ih x hx)

/-! ## Transcripts without notes -/

@[simp]
theorem heard_nil : heard ([] : List (S.noting N).Event) = [] := rfl

@[simp]
theorem heard_append : heard (u ++ v) = heard u ++ heard v := List.filterMap_append

/-- What others heard, as it stands among notes. -/
def unnoted (e : S.Event) : (S.noting N).Event := ⟨.inr e.1, e.2⟩

@[simp]
theorem notes_unnoted (t : List S.Event) :
    notes (t.map unnoted : List (S.noting N).Event) = [] := by
  rw [notes, List.filterMap_map, List.filterMap_eq_nil_iff]
  exact fun _ _ => rfl

@[simp]
theorem heard_unnoted (t : List S.Event) :
    heard (t.map unnoted : List (S.noting N).Event) = t := by
  rw [heard, List.filterMap_map]
  exact List.filterMap_some

theorem ran_noteless_iff {p : Prog S α} :
    Ran (noteless p) u a ↔ ∃ t, Ran p t a ∧ u = t.map unnoted := by
  induction p generalizing u with
  | done b =>
      constructor
      · intro h
        obtain ⟨rfl, rfl⟩ := ran_done_iff.mp h
        exact ⟨[], .done a, rfl⟩
      · rintro ⟨t, h, rfl⟩
        obtain ⟨rfl, rfl⟩ := ran_done_iff.mp h
        exact .done a
  | ask r next ih =>
      constructor
      · intro h
        obtain ⟨x, rest, rfl, hx⟩ := ran_ask_iff.mp h
        obtain ⟨t, ht, rfl⟩ := (ih x).mp hx
        exact ⟨⟨r, x⟩ :: t, ran_ask_iff.mpr ⟨x, t, rfl, ht⟩, rfl⟩
      · rintro ⟨t, h, rfl⟩
        obtain ⟨x, rest, rfl, hx⟩ := ran_ask_iff.mp h
        exact ran_ask_iff.mpr ⟨x, _, rfl, (ih x).mpr ⟨rest, hx, rfl⟩⟩

/-- What others heard can be cut anywhere. Notes take no time, so those at the cut are put before
it. -/
theorem exists_cut_of_heard {s t : List S.Event} (cut : heard u = s ++ t) :
    ∃ n m, u = n ++ m ∧ heard n = s ∧ heard m = t ∧ ∀ e ∈ m.head?, noted? e = none := by
  induction u generalizing s with
  | nil =>
      obtain ⟨rfl, rfl⟩ := List.append_eq_nil_iff.mp cut.symm
      exact ⟨[], [], rfl, rfl, rfl, by simp⟩
  | cons e u ih =>
      obtain ⟨r, x⟩ := e
      cases r with
      | inl note =>
          obtain ⟨n, m, rfl, before, after, here⟩ := ih cut
          exact ⟨⟨.inl note, x⟩ :: n, m, rfl, before, after, here⟩
      | inr r =>
          cases s with
          | nil => exact ⟨[], _, rfl, rfl, cut, by simp [noted?]⟩
          | cons first s =>
              obtain ⟨same, cut⟩ := List.cons.inj cut
              obtain ⟨n, m, rfl, rfl, after, here⟩ := ih cut
              exact ⟨⟨.inr r, x⟩ :: n, m, rfl, congrArg (· :: heard n) same, after, here⟩

end Prog

end BrowserScript
