import BrowserScript.Program.Basic
import Mathlib.Data.List.Induction

/-!
Transcripts of programs: what was asked and what was answered, in order. A program has a
transcript for every behaviour of its surroundings, so a statement about all transcripts is one
about all surroundings. Which answers are possible is for others to say.
-/

namespace BrowserScript

/-- A request with its answer. -/
abbrev Signature.Event (S : Signature) : Type := (r : S.Request) × S.Answer r

namespace Prog

variable {S T : Signature} {α β ε : Type}

/-- A program can be run with this transcript and then has this result. -/
inductive Ran : Prog S α → List S.Event → α → Prop
  | done (a : α) : Ran (.done a) [] a
  | ask {r : S.Request} {next : S.Answer r → Prog S α} {t : List S.Event} {a : α}
      (x : S.Answer r) (rest : Ran (next x) t a) : Ran (.ask r next) (⟨r, x⟩ :: t) a

theorem ran_done_iff {a b : α} {t : List S.Event} :
    Ran (.done a) t b ↔ t = [] ∧ b = a := by
  constructor
  · intro h
    cases h
    exact ⟨rfl, rfl⟩
  · rintro ⟨rfl, rfl⟩
    exact .done b

theorem ran_ask_iff {r : S.Request} {next : S.Answer r → Prog S α} {t : List S.Event} {a : α} :
    Ran (.ask r next) t a ↔ ∃ x rest, t = ⟨r, x⟩ :: rest ∧ Ran (next x) rest a := by
  constructor
  · intro h
    cases h with
    | ask x rest => exact ⟨x, _, rfl, rest⟩
  · rintro ⟨x, rest, rfl, h⟩
    exact .ask x h

theorem ran_bind_iff {p : Prog S α} {f : α → Prog S β} {t : List S.Event} {b : β} :
    Ran (p.bind f) t b ↔ ∃ t₁ a t₂, t = t₁ ++ t₂ ∧ Ran p t₁ a ∧ Ran (f a) t₂ b := by
  induction p generalizing t with
  | done a =>
      constructor
      · intro h
        exact ⟨[], a, t, rfl, .done a, h⟩
      · rintro ⟨t₁, a', t₂, rfl, h₁, h₂⟩
        obtain ⟨rfl, rfl⟩ := ran_done_iff.mp h₁
        exact h₂
  | ask r next ih =>
      simp only [bind, ran_ask_iff, ih]
      constructor
      · rintro ⟨x, rest, rfl, t₁, a, t₂, rfl, h₁, h₂⟩
        exact ⟨⟨r, x⟩ :: t₁, a, t₂, rfl, ⟨x, t₁, rfl, h₁⟩, h₂⟩
      · rintro ⟨t₁, a, t₂, rfl, ⟨x, rest, rfl, h₁⟩, h₂⟩
        exact ⟨x, rest ++ t₂, rfl, rest, a, t₂, rfl, h₁, h₂⟩

/-! ## Programs that can fail -/

/-- Go on with a value, end with an error. -/
def orEnd (f : α → Prog S (Except ε β)) : Except ε α → Prog S (Except ε β)
  | .ok a => f a
  | .error e => .done (.error e)

theorem ran_orEnd_iff {f : α → Prog S (Except ε β)} {x : Except ε α} {t : List S.Event}
    {r : Except ε β} :
    Ran (orEnd f x) t r ↔
      (∃ e, x = .error e ∧ t = [] ∧ r = .error e) ∨ ∃ a, x = .ok a ∧ Ran (f a) t r := by
  cases x with
  | error e => simp [orEnd, ran_done_iff]
  | ok a => simp [orEnd]

theorem ran_orEnd_ok_iff {f : α → Prog S (Except ε β)} {x : Except ε α} {t : List S.Event} {b : β} :
    Ran (orEnd f x) t (.ok b) ↔ ∃ a, x = .ok a ∧ Ran (f a) t (.ok b) := by
  simp [ran_orEnd_iff]

theorem ran_bind_orEnd_ok_iff {p : Prog S (Except ε α)} {f : α → Prog S (Except ε β)}
    {t : List S.Event} {b : β} :
    Ran (p.bind (orEnd f)) t (.ok b) ↔
      ∃ t₁ a t₂, t = t₁ ++ t₂ ∧ Ran p t₁ (.ok a) ∧ Ran (f a) t₂ (.ok b) := by
  rw [ran_bind_iff]
  constructor
  · rintro ⟨t₁, x, t₂, rfl, first, rest⟩
    obtain ⟨a, rfl, rest⟩ := ran_orEnd_ok_iff.mp rest
    exact ⟨t₁, a, t₂, rfl, first, rest⟩
  · rintro ⟨t₁, a, t₂, rfl, first, rest⟩
    exact ⟨t₁, .ok a, t₂, rfl, first, rest⟩

theorem run_bind_eq (x : ExceptT ε (Prog S) α) (f : α → ExceptT ε (Prog S) β) :
    (x >>= f).run = x.run.bind (orEnd fun a => (f a).run) := by
  show x.run.bind _ = x.run.bind _
  congr 1
  funext a
  cases a <;> rfl

/-- A program that ended well did its first part well. -/
theorem ran_ok_bind_iff {x : ExceptT ε (Prog S) α} {f : α → ExceptT ε (Prog S) β}
    {t : List S.Event} {b : β} :
    Ran (x >>= f).run t (.ok b) ↔
      ∃ t₁ a t₂, t = t₁ ++ t₂ ∧ Ran x.run t₁ (.ok a) ∧ Ran (f a).run t₂ (.ok b) := by
  rw [run_bind_eq, ran_bind_iff]
  constructor
  · rintro ⟨t₁, a, t₂, rfl, h₁, h₂⟩
    obtain ⟨e, -, -, absurd⟩ | ⟨a, rfl, h₂⟩ := ran_orEnd_iff.mp h₂
    · cases absurd
    · exact ⟨t₁, a, t₂, rfl, h₁, h₂⟩
  · rintro ⟨t₁, a, t₂, rfl, h₁, h₂⟩
    exact ⟨t₁, .ok a, t₂, rfl, h₁, h₂⟩

theorem ran_bind_of_ok {x : ExceptT ε (Prog S) α} {f : α → ExceptT ε (Prog S) β}
    {t₁ t₂ : List S.Event} {a : α} {r : Except ε β} (first : Ran x.run t₁ (.ok a))
    (rest : Ran (f a).run t₂ r) : Ran (x >>= f).run (t₁ ++ t₂) r := by
  rw [run_bind_eq]
  exact ran_bind_iff.mpr ⟨t₁, _, t₂, rfl, first, rest⟩

/-! ## Programs in larger surroundings -/

/-- A transcript of a program in larger surroundings: each request of the smaller ones became the
requests by which it is served there. -/
inductive Serves (serve : (r : S.Request) → Prog T (S.Answer r)) :
    List S.Event → List T.Event → Prop
  | nil : Serves serve [] []
  | cons {r : S.Request} {x : S.Answer r} {u v : List T.Event} {t : List S.Event}
      (served : Ran (serve r) u x) (rest : Serves serve t v) :
      Serves serve (⟨r, x⟩ :: t) (u ++ v)

theorem ran_run_iff {serve : (r : S.Request) → Prog T (S.Answer r)} {p : Prog S α}
    {v : List T.Event} {a : α} :
    Ran (p.run serve) v a ↔ ∃ t, Ran p t a ∧ Serves serve t v := by
  induction p generalizing v with
  | done b =>
      constructor
      · intro h
        obtain ⟨rfl, rfl⟩ := ran_done_iff.mp h
        exact ⟨[], .done a, .nil⟩
      · rintro ⟨t, h, hs⟩
        obtain ⟨rfl, rfl⟩ := ran_done_iff.mp h
        cases hs
        exact .done a
  | ask r next ih =>
      constructor
      · intro h
        obtain ⟨u, x, v, rfl, hx, hv⟩ := ran_bind_iff.mp h
        obtain ⟨t, ht, hs⟩ := ih x |>.mp hv
        exact ⟨⟨r, x⟩ :: t, .ask x ht, .cons hx hs⟩
      · rintro ⟨t, h, hs⟩
        obtain ⟨x, rest, rfl, hr⟩ := ran_ask_iff.mp h
        cases hs with
        | cons hx hv => exact ran_bind_iff.mpr ⟨_, x, _, rfl, hx, ih x |>.mpr ⟨rest, hr, hv⟩⟩

/-- Where serving a request shows in a part of the surroundings exactly as the request itself does,
a transcript and the one it became show the same there. -/
theorem Serves.filterMap_eq {serve : (r : S.Request) → Prog T (S.Answer r)} {E : Type}
    {before : S.Event → Option E} {after : T.Event → Option E}
    (same : ∀ r u x, Ran (serve r) u x → u.filterMap after = (before ⟨r, x⟩).toList)
    {t : List S.Event} {v : List T.Event} (h : Serves serve t v) :
    v.filterMap after = t.filterMap before := by
  induction h with
  | nil => rfl
  | @cons r x u v t served rest ih =>
      rw [List.filterMap_append, same r u x served, ih, List.filterMap_cons]
      cases before ⟨r, x⟩ <;> rfl

/-! ## What a program asks -/

/-- All requests a program can come to are of some kind. -/
def Asks (P : S.Request → Prop) : Prog S α → Prop
  | .done _ => True
  | .ask r next => P r ∧ ∀ x, Asks P (next x)

theorem Asks.bind {P : S.Request → Prop} {p : Prog S α} {f : α → Prog S β} (hp : Asks P p)
    (hf : ∀ a, Asks P (f a)) : Asks P (p.bind f) := by
  induction p with
  | done a => exact hf a
  | ask r next ih => exact ⟨hp.1, fun x => ih x (hp.2 x)⟩

theorem asks_run {P : T.Request → Prop} {serve : (r : S.Request) → Prog T (S.Answer r)}
    (hs : ∀ r, Asks P (serve r)) (p : Prog S α) : Asks P (p.run serve) := by
  induction p with
  | done a => trivial
  | ask r next ih => exact (hs r).bind ih

/-- Requests of a kind are served by requests of a kind. -/
theorem Asks.run {P : S.Request → Prop} {Q : T.Request → Prop}
    {serve : (r : S.Request) → Prog T (S.Answer r)} (hs : ∀ r, P r → Asks Q (serve r))
    {p : Prog S α} (hp : Asks P p) : Asks Q (p.run serve) := by
  induction p with
  | done a => trivial
  | ask r next ih => exact (hs r hp.1).bind fun x => ih x (hp.2 x)

theorem Asks.bind_run {P : S.Request → Prop} {x : ExceptT ε (Prog S) α}
    {f : α → ExceptT ε (Prog S) β} (hx : Asks P x.run) (hf : ∀ a, Asks P (f a).run) :
    Asks P (x >>= f).run := by
  rw [run_bind_eq]
  refine hx.bind fun r => ?_
  cases r with
  | ok a => exact hf a
  | error e => trivial

theorem Asks.mono {P Q : S.Request → Prop} (h : ∀ r, P r → Q r) {p : Prog S α} (hp : Asks P p) :
    Asks Q p := by
  induction p with
  | done a => trivial
  | ask r next ih => exact ⟨h r hp.1, fun x => ih x (hp.2 x)⟩

theorem Ran.asked {P : S.Request → Prop} {p : Prog S α} {t : List S.Event} {a : α}
    (h : Ran p t a) (hp : Asks P p) : ∀ e ∈ t, P e.1 := by
  induction h with
  | done a => simp
  | ask x rest ih =>
      intro e he
      rcases List.mem_cons.mp he with rfl | he
      · exact hp.1
      · exact ih (hp.2 x) e he

/-- A program can have come as far as this. -/
inductive Came : Prog S α → List S.Event → Prop
  | start (p : Prog S α) : Came p []
  | ask {r : S.Request} {next : S.Answer r → Prog S α} {t : List S.Event} (x : S.Answer r)
      (rest : Came (next x) t) : Came (.ask r next) (⟨r, x⟩ :: t)

theorem Ran.came {p : Prog S α} {t : List S.Event} {a : α} (h : Ran p t a) : Came p t := by
  induction h with
  | done a => exact .start _
  | ask x rest ih => exact .ask x ih

/-- A program has not come further than its first part, or it did that and has begun the rest. -/
theorem Came.bind_cases {p : Prog S α} {f : α → Prog S β} {t : List S.Event}
    (h : Came (p.bind f) t) :
    Came p t ∨ ∃ t₁ a t₂, t = t₁ ++ t₂ ∧ Ran p t₁ a ∧ Came (f a) t₂ := by
  induction p generalizing t with
  | done a => exact .inr ⟨[], a, t, rfl, .done a, h⟩
  | ask r next ih =>
      cases h with
      | start => exact .inl (.start _)
      | ask x rest =>
          obtain first | ⟨t₁, a, t₂, rfl, first, rest⟩ := ih x rest
          · exact .inl (.ask x first)
          · exact .inr ⟨⟨r, x⟩ :: t₁, a, t₂, rfl, .ask x first, rest⟩

theorem Came.asked {P : S.Request → Prop} {p : Prog S α} {t : List S.Event} (h : Came p t)
    (hp : Asks P p) : ∀ e ∈ t, P e.1 := by
  induction h with
  | start p => simp
  | ask x rest ih =>
      intro e he
      rcases List.mem_cons.mp he with rfl | he
      · exact hp.1
      · exact ih (hp.2 x) e he

/-! ## What a program comes to -/

/-- All results a program can have are of some kind. -/
def Yields (Q : α → Prop) : Prog S α → Prop
  | .done a => Q a
  | .ask _ next => ∀ x, Yields Q (next x)

theorem Yields.bind {Q : α → Prop} {R : β → Prop} {p : Prog S α} {f : α → Prog S β}
    (hp : Yields Q p) (hf : ∀ a, Q a → Yields R (f a)) : Yields R (p.bind f) := by
  induction p with
  | done a => exact hf a hp
  | ask r next ih => exact fun x => ih x (hp x)

theorem yields_of_forall {Q : α → Prop} (h : ∀ a, Q a) (p : Prog S α) : Yields Q p := by
  induction p with
  | done a => exact h a
  | ask r next ih => exact ih

theorem Yields.run {Q : α → Prop} {serve : (r : S.Request) → Prog T (S.Answer r)} {p : Prog S α}
    (hp : Yields Q p) : Yields Q (p.run serve) := by
  induction p with
  | done a => exact hp
  | ask r next ih =>
      have served := yields_of_forall (fun _ => trivial) (serve r)
      exact served.bind fun x _ => ih x (hp x)

/-- What is asked may depend on what was found before. -/
theorem Asks.bind_of_yields {P : S.Request → Prop} {Q : α → Prop} {p : Prog S α}
    {f : α → Prog S β} (hp : Asks P p) (found : Yields Q p) (hf : ∀ a, Q a → Asks P (f a)) :
    Asks P (p.bind f) := by
  induction p with
  | done a => exact hf a found
  | ask r next ih => exact ⟨hp.1, fun x => ih x (hp.2 x) (found x)⟩

theorem Ran.yields {Q : α → Prop} {p : Prog S α} {t : List S.Event} {a : α} (h : Ran p t a)
    (hp : Yields Q p) : Q a := by
  induction h with
  | done a => exact hp
  | ask x rest ih => exact ih (hp x)

/-! ## Phases

Programs that go through phases. The phases say which events there can be in each of them and where
an event leads to; a program conforms to them if this is so whatever it is answered. What holds of
all that the phases allow is then shown by induction on the events, away from the program. -/

section Phases

variable {σ : Type} {Step : σ → S.Event → σ → Prop} {ends ends' : σ → α → Prop}

/-- In this phase whatever the program is answered leads to a phase in which it conforms, and its
result fits the phase in which it ends. -/
def Conforms (Step : σ → S.Event → σ → Prop) (ends : σ → α → Prop) : σ → Prog S α → Prop
  | s, .done a => ends s a
  | s, .ask r next => ∀ x, ∃ s', Step s ⟨r, x⟩ s' ∧ Conforms Step ends s' (next x)

theorem Conforms.bind {after : σ → β → Prop} {f : α → Prog S β} {s : σ} {p : Prog S α}
    (hp : Conforms Step ends s p) (hf : ∀ s a, ends s a → Conforms Step after s (f a)) :
    Conforms Step after s (p.bind f) := by
  induction p generalizing s with
  | done a => exact hf s a hp
  | ask r next ih =>
      intro x
      obtain ⟨s', step, rest⟩ := hp x
      exact ⟨s', step, ih x rest⟩

/-- A program that asks only what leaves a phase as it is. -/
theorem Asks.conforms {P : S.Request → Prop} {s : σ} (stays : ∀ r x, P r → Step s ⟨r, x⟩ s)
    {p : Prog S α} (hp : Asks P p) : Conforms Step (fun s' _ => s' = s) s p := by
  induction p with
  | done a => rfl
  | ask r next ih => exact fun x => ⟨s, stays r x hp.1, ih x (hp.2 x)⟩

/-- Where events lead to from a first phase. -/
inductive Reached (Step : σ → S.Event → σ → Prop) (first : σ) : List S.Event → σ → Prop
  | first : Reached Step first [] first
  | step {t : List S.Event} {s s' : σ} {e : S.Event} (before : Reached Step first t s)
      (step : Step s e s') : Reached Step first (t ++ [e]) s'

variable {first s : σ} {t u : List S.Event} {p : Prog S α} {a : α}

theorem Came.reached (h : Came p u) (before : Reached Step first t s)
    (conforms : Conforms Step ends s p) : ∃ s', Reached Step first (t ++ u) s' := by
  induction h generalizing t s with
  | start p => exact ⟨s, by rwa [List.append_nil]⟩
  | @ask r next u x rest ih =>
      obtain ⟨s', step, rest⟩ := conforms x
      rw [List.append_cons]
      exact ih (before.step step) rest

theorem Ran.reached (h : Ran p u a) (before : Reached Step first t s)
    (conforms : Conforms Step ends s p) : ∃ s', Reached Step first (t ++ u) s' ∧ ends s' a := by
  induction h generalizing t s with
  | done a => exact ⟨s, by rwa [List.append_nil], conforms⟩
  | @ask r next u a x rest ih =>
      obtain ⟨s', step, rest⟩ := conforms x
      rw [List.append_cons]
      exact ih (before.step step) rest

theorem reached_concat_iff {e : S.Event} {s' : σ} :
    Reached Step first (t ++ [e]) s' ↔ ∃ s, Reached Step first t s ∧ Step s e s' := by
  constructor
  · intro h
    generalize same : t ++ [e] = u at h
    cases h with
    | first => simp at same
    | step before step =>
        obtain ⟨rfl, last⟩ := List.append_inj' same rfl
        cases last
        exact ⟨_, before, step⟩
  · rintro ⟨s, before, step⟩
    exact before.step step

/-- The phases before and after an event. -/
theorem Reached.at {e : S.Event} {rest : List S.Event}
    (h : Reached Step first (t ++ e :: rest) s) :
    ∃ s₁ s₂, Reached Step first t s₁ ∧ Step s₁ e s₂ := by
  induction rest using List.reverseRecOn generalizing s with
  | nil =>
      obtain ⟨s₁, before, step⟩ := reached_concat_iff.mp h
      exact ⟨s₁, s, before, step⟩
  | append_singleton rest last ih =>
      rw [← List.cons_append, ← List.append_assoc] at h
      obtain ⟨_, before, -⟩ := reached_concat_iff.mp h
      exact ih before

section Filtered

variable {γ : Type} {f : S.Event → Option γ} {past rest : List γ} {c : γ}

/-- The phases before and after an event that shows when others are left out. -/
theorem Reached.at_of_filterMap (h : Reached Step first t s)
    (split : t.filterMap f = past ++ c :: rest) :
    ∃ u e s₁ s₂, Reached Step first u s₁ ∧ Step s₁ e s₂ ∧ u.filterMap f = past ∧ f e = some c := by
  obtain ⟨u₁, u₂, rfl, rfl, later⟩ := List.filterMap_eq_append_iff.mp split
  obtain ⟨skipped, e, u₃, rfl, none, is, -⟩ := List.filterMap_eq_cons_iff.mp later
  rw [← List.append_assoc] at h
  obtain ⟨s₁, s₂, before, step⟩ := h.at
  refine ⟨_, e, s₁, s₂, before, step, ?_, is⟩
  rw [List.filterMap_append, List.filterMap_eq_nil_iff.mpr none, List.append_nil]

theorem filterMap_concat (t : List S.Event) (e : S.Event) :
    (t ++ [e]).filterMap f = t.filterMap f ++ (f e).toList := by
  rw [List.filterMap_append, List.filterMap_cons, List.filterMap_nil]
  cases f e <;> rfl

end Filtered

end Phases

end Prog

end BrowserScript
