import BrowserScript.DevTools.Link
import BrowserScript.Proofs.Program.Transcript
import Mathlib.Data.List.Induction
import Mathlib.Logic.Function.Basic

/-!
Calls at the same time over one connection, and the one who listens to it. In a turn one of them
has a single request served, and turns come in any order. The link answers from what it keeps;
what the network does with a message, what arrives and how time passes is open.
-/

namespace BrowserScript.DevTools.Link

open Prog

@[match_pattern] abbrev toNetwork (r : Network.Request) : surroundings.Request := .inl (.inl r)

@[match_pattern] abbrev toLink (connection : Nat) (r : Request) : surroundings.Request :=
  .inl (.inr (connection, r))

@[match_pattern] abbrev toClock (r : Clock.Request) : surroundings.Request := .inr r

/-- The link after an event at a time. -/
inductive Takes (connection now : Nat) (l : Link) : surroundings.Event → Link → Prop
  | network (r : Network.Request) (x : r.Result) : Takes connection now l ⟨toNetwork r, x⟩ l
  | time : Takes connection now l ⟨toClock .now, now⟩ l
  | slept (milliseconds : Nat) : Takes connection now l ⟨toClock (.sleep milliseconds), ()⟩ l
  | kept {r : Request} {x : r.Result} {l' : Link} (served : serve? now r l = some (x, l')) :
      Takes connection now l ⟨toLink connection r, x⟩ l'

inductive Party
  | caller (i : Nat)
  | listener
deriving DecidableEq

/-- One request of a party, with the answer. -/
structure Deed where
  who : Party
  event : surroundings.Event

/-- A link, and what the parties that share it have left to do. -/
structure Traffic where
  link : Link := {}
  now : Nat := 0
  calls : Nat → Prog surroundings (Except Error Json)
  listening : Prog surroundings Bool

/-- What there can be after which deeds. Whoever listens begins anew as long as there is more. -/
inductive Reached (connection : Nat) (asked : Nat → Call) : List Deed → Traffic → Prop
  | first : Reached connection asked []
      { calls := fun i => call connection (asked i), listening := listen connection }
  | pass {h : List Deed} {s : Traffic} {now : Nat} (before : Reached connection asked h s)
      (later : s.now ≤ now) : Reached connection asked h { s with now }
  | again {h : List Deed} {s : Traffic} (before : Reached connection asked h s)
      (more : s.listening = .done true) :
      Reached connection asked h { s with listening := listen connection }
  | called {h : List Deed} {s : Traffic} {i : Nat} {r : surroundings.Request}
      {next : surroundings.Answer r → Prog surroundings (Except Error Json)}
      {x : surroundings.Answer r} {link : Link} (before : Reached connection asked h s)
      (turn : s.calls i = .ask r next) (takes : Takes connection s.now s.link ⟨r, x⟩ link) :
      Reached connection asked (h ++ [⟨.caller i, ⟨r, x⟩⟩])
        { s with link, calls := Function.update s.calls i (next x) }
  | heard {h : List Deed} {s : Traffic} {r : surroundings.Request}
      {next : surroundings.Answer r → Prog surroundings Bool}
      {x : surroundings.Answer r} {link : Link} (before : Reached connection asked h s)
      (turn : s.listening = .ask r next) (takes : Takes connection s.now s.link ⟨r, x⟩ link) :
      Reached connection asked (h ++ [⟨.listener, ⟨r, x⟩⟩])
        { s with link, listening := next x }

variable {connection : Nat} {asked : Nat → Call} {h h' : List Deed} {s : Traffic} {d : Deed}
  {who : Party} {i : Nat}

/-- The first deeds, and the last one. -/
theorem reached_concat (came : Reached connection asked (h ++ [d]) s) :
    ∃ s₁ s₂, Reached connection asked h s₁ ∧ Takes connection s₁.now s₁.link d.event s₂.link ∧
      Reached connection asked (h ++ [d]) s₂ := by
  generalize same : h ++ [d] = whole at came
  induction came with
  | first => simp at same
  | pass _ _ ih | again _ _ ih => exact ih same
  | @called _ s i r next x link before turn takes | @heard _ s r next x link before turn takes =>
      obtain ⟨rfl, last⟩ := List.append_inj' same rfl
      cases last
      first
        | exact ⟨s, _, before, takes, before.called turn takes⟩
        | exact ⟨s, _, before, takes, before.heard turn takes⟩

theorem Reached.at (came : Reached connection asked (h ++ d :: h') s) :
    ∃ s₁ l, Reached connection asked h s₁ ∧ Takes connection s₁.now s₁.link d.event l := by
  induction h' using List.reverseRecOn generalizing s with
  | nil =>
      obtain ⟨s₁, s₂, before, takes, -⟩ := reached_concat came
      exact ⟨s₁, s₂.link, before, takes⟩
  | append_singleton h' last ih =>
      rw [← List.cons_append, ← List.append_assoc] at came
      obtain ⟨s₁, -, before, -⟩ := reached_concat came
      exact ih before

/-! ## What one party did -/

def own (who : Party) (h : List Deed) : List surroundings.Event :=
  h.filterMap fun d => if d.who = who then some d.event else none

theorem own_append : own who (h ++ h') = own who h ++ own who h' := List.filterMap_append

theorem own_cons_mine (e : surroundings.Event) : own who (⟨who, e⟩ :: h) = e :: own who h := by
  simp [own]

theorem own_cons_other (e : surroundings.Event) {other : Party} (ne : other ≠ who) :
    own who (⟨other, e⟩ :: h) = own who h := by
  simp [own, ne]

theorem mem_own_iff {e : surroundings.Event} : e ∈ own who h ↔ ⟨who, e⟩ ∈ h := by
  simp only [own, List.mem_filterMap]
  constructor
  · rintro ⟨⟨other, e'⟩, mem, is⟩
    split at is
    · rename_i mine
      cases mine
      cases is
      exact mem
    · cases is
  · intro mem
    exact ⟨_, mem, if_pos rfl⟩

/-- Where the events of a party split, all deeds do. -/
theorem own_split {e : surroundings.Event} {t u : List surroundings.Event}
    (split : own who h = t ++ e :: u) :
    ∃ h₁ h₂, h = h₁ ++ ⟨who, e⟩ :: h₂ ∧ own who h₁ = t ∧ own who h₂ = u := by
  obtain ⟨h₁, h₂, rfl, first, rest⟩ := List.filterMap_eq_append_iff.mp split
  obtain ⟨skipped, d, h₂, rfl, none, is, rest⟩ := List.filterMap_eq_cons_iff.mp rest
  have mine : d = ⟨who, e⟩ := by
    obtain ⟨other, e'⟩ := d
    dsimp only at is
    split at is
    · rename_i mine
      cases mine
      cases is
      rfl
    · cases is
  refine ⟨h₁ ++ skipped, h₂, by rw [mine, List.append_assoc], ?_, rest⟩
  rw [own_append, show own who h₁ = t from first,
    show own who skipped = [] from List.filterMap_eq_nil_iff.mpr none, List.append_nil]

/-! ## How far a call has come -/

section Stages

variable (connection : Nat) (c : Call) (id : Nat)

/-- What a call does with what has become of it. -/
def conclude : Waited → Prog surroundings (Except Error Json)
  | .answered a => .done a
  | .givenUp => .done (.error .sessionClosed)
  | .late => .ask (toLink connection (.forget id)) fun _ =>
      .done (.error (.timeout ("Request " ++ c.method ++ " timed out")))

/-- What a call does once the network has been given its message. -/
def afterSending : Except String Unit → Prog surroundings (Except Error Json)
  | .error text => .ask (toLink connection (.forget id)) fun _ => .done (.error (.socket text))
  | .ok () => .ask (toClock .now) fun (now : Nat) =>
      .ask (toLink connection (.await id (now + patience))) (conclude connection c id)

def sending : Network.Request := .send connection (c.toJson (some id)).compact

theorem call_eq : call connection c =
    .ask (toLink connection .begin) fun id =>
      .ask (toNetwork (sending connection c id)) (afterSending connection c id) := by
  refine congrArg (Prog.ask _) (funext fun id => congrArg (Prog.ask _) (funext fun sent => ?_))
  cases sent with
  | error text => rfl
  | ok u =>
      refine congrArg (Prog.ask _) (funext fun now =>
        congrArg (Prog.ask _) (funext fun waited => ?_))
      cases waited with
      | answered a | givenUp | late => rfl

abbrev began : surroundings.Event := ⟨toLink connection .begin, id⟩

abbrev tried (x : Except String Unit) : surroundings.Event :=
  ⟨toNetwork (sending connection c id), x⟩

abbrev forgot : surroundings.Event := ⟨toLink connection (.forget id), ()⟩

abbrev timed (now : Nat) : surroundings.Event := ⟨toClock .now, now⟩

abbrev awaited (now : Nat) (w : Waited) : surroundings.Event :=
  ⟨toLink connection (.await id (now + patience)), w⟩

/-- What a call did since its message was sent, and what it has left to do. -/
inductive Waiting : List surroundings.Event → Prog surroundings (Except Error Json) → Prop
  | sent : Waiting [] (afterSending connection c id (.ok ()))
  | timed (now : Nat) : Waiting [timed now]
      (.ask (toLink connection (.await id (now + patience))) (conclude connection c id))
  | answered (now : Nat) (a : Except Error Json) :
      Waiting [timed now, awaited connection id now (.answered a)] (.done a)
  | givenUp (now : Nat) :
      Waiting [timed now, awaited connection id now .givenUp] (.done (.error .sessionClosed))
  | late (now : Nat) :
      Waiting [timed now, awaited connection id now .late] (conclude connection c id .late)
  | timedOut (now : Nat) :
      Waiting [timed now, awaited connection id now .late, forgot connection id]
        (.done (.error (.timeout ("Request " ++ c.method ++ " timed out"))))

/-- What a call did, and what it has left to do. -/
inductive Stage : List surroundings.Event → Prog surroundings (Except Error Json) → Prop
  | fresh : Stage [] (.ask (toLink connection .begin) fun id =>
      .ask (toNetwork (sending connection c id)) (afterSending connection c id))
  | begun (id : Nat) : Stage [began connection id]
      (.ask (toNetwork (sending connection c id)) (afterSending connection c id))
  | refused (id : Nat) (text : String) :
      Stage [began connection id, tried connection c id (.error text)]
        (afterSending connection c id (.error text))
  | failed (id : Nat) (text : String) :
      Stage [began connection id, tried connection c id (.error text), forgot connection id]
        (.done (.error (.socket text)))
  | sent (id : Nat) {u : List surroundings.Event} {p : Prog surroundings (Except Error Json)}
      (waiting : Waiting connection c id u p) :
      Stage (began connection id :: tried connection c id (.ok ()) :: u) p

end Stages

variable {c : Call} {t u : List surroundings.Event} {id : Nat} {r : surroundings.Request}
  {p : Prog surroundings (Except Error Json)}
  {go : surroundings.Answer r → Prog surroundings (Except Error Json)}

theorem Waiting.next (waiting : Waiting connection c id u (.ask r go)) (x : surroundings.Answer r) :
    Waiting connection c id (u ++ [⟨r, x⟩]) (go x) := by
  cases waiting with
  | sent => exact .timed x
  | timed now =>
      match x with
      | .answered a => exact .answered now a
      | .givenUp => exact .givenUp now
      | .late => exact .late now
  | late now => exact .timedOut now

theorem Stage.next (stage : Stage connection c t (.ask r go)) (x : surroundings.Answer r) :
    Stage connection c (t ++ [⟨r, x⟩]) (go x) := by
  cases stage with
  | fresh => exact .begun x
  | begun id =>
      match x with
      | .error text => exact .refused id text
      | .ok () => exact .sent id .sent
  | refused id text => exact .failed id text
  | sent id waiting => exact .sent id (waiting.next x)

theorem Reached.stage (came : Reached connection asked h s) (i : Nat) :
    Stage connection (asked i) (own (.caller i) h) (s.calls i) := by
  induction came with
  | first =>
      show Stage connection (asked i) [] (call connection (asked i))
      rw [call_eq]
      exact .fresh
  | pass _ _ ih | again _ _ ih => exact ih
  | @called h s j r next x link _ turn _ ih =>
      show Stage connection (asked i) _ (Function.update s.calls j (next x) i)
      rw [own_append]
      by_cases same : j = i
      · subst same
        rw [own_cons_mine, Function.update_self]
        rw [turn] at ih
        exact ih.next x
      · rw [own_cons_other _ (by simpa using same), Function.update_of_ne (Ne.symm same)]
        exact (List.append_nil _).symm ▸ ih
  | heard _ _ _ ih =>
      rw [own_append, own_cons_other _ (by simp)]
      exact (List.append_nil _).symm ▸ ih

end BrowserScript.DevTools.Link
