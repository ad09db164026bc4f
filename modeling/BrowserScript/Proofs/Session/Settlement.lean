import BrowserScript.Proofs.Session.History
import BrowserScript.Proofs.Verification.Message
import Mathlib.Data.List.Induction

/-!
A statement on the board is settled once. Whoever sets it up, watches it or gives it a last look
may try to settle it, in any order and at any time: its status only goes forward while it is on the
board, the followers are told one verdict on it when it is settled, and the end of a test leaves
none of the statements it forgets without one.
-/

namespace BrowserScript.Session

open Prog
open Verification (Outcome)
open Run (Verdict)
open Board (Entry Status)

variable {d d' : Desk} {h : List Moment} {m : Moment} {key : String} {e : Entry}

/-- The verdicts on a statement since it was last put on the board. -/
def tally (key : String) (h : List Moment) : List Verdict :=
  h.foldl (fun vs m =>
    if claimed? m.event = some key then [] else vs ++ (m.verdictOn? key).toList) []

theorem tally_concat (key : String) (h : List Moment) (m : Moment) :
    tally key (h ++ [m]) =
      if claimed? m.event = some key then [] else tally key h ++ (m.verdictOn? key).toList := by
  simp [tally]

/-- Who settles an open statement tells one verdict, who settles it again none. -/
theorem verdictOn?_of_settling_it {found : Outcome}
    (settling : settling? m.event.1 = some (key, found)) :
    m.verdictOn? key = ((m.desk.board.entry? key).filter fun e => !e.status.isFinal).map
      fun e => ⟨e.source, found.success, found.message⟩ := by
  have verdict := verdict?_of_settling (i := m.who) (d := m.desk) settling
  rw [Moment.verdictOn?, verdict, ← Board.settle_eq]
  cases (m.desk.board.settle key found).1 with
  | none => rfl
  | some v => simp [Option.filter]

theorem verdictOn?_of_silent (silent : m.verdict? = none) : m.verdictOn? key = none := by
  rw [Moment.verdictOn?, silent]
  rfl

/-- As many verdicts as the status of the statement says. -/
def Told (key : String) (h : List Moment) (e : Entry) : Prop :=
  (tally key h).length = if e.status.isFinal then 1 else 0

theorem Fate.told {old new : Option Entry} (fate : Fate m key old new)
    (here : m.desk.board.entry? key = old) (so : ∀ e, old = some e → Told key h e)
    (there : new = some e) : Told key (h ++ [m]) e := by
  rw [Told, tally_concat]
  cases fate with
  | claimed c claimed silent =>
      cases there
      rw [if_pos claimed]
      rfl
  | settled found old settling unclaimed =>
      obtain ⟨e₀, rfl, rfl⟩ := Option.map_eq_some_iff.mp there
      have before := so e₀ rfl
      rw [if_neg (by simp [unclaimed]), verdictOn?_of_settling_it settling, here,
        List.length_append, before, if_pos (e₀.settled_isFinal found)]
      by_cases final : e₀.status.isFinal <;> simp [Option.filter, final]
  | activated probe old unclaimed silent =>
      obtain ⟨e₀, rfl, rfl⟩ := Option.map_eq_some_iff.mp there
      rw [if_neg (by simp [unclaimed]), verdictOn?_of_silent silent, e₀.activated_isFinal]
      simpa [Told] using so e₀ rfl
  | forgotten old forgets => cases there
  | left old unclaimed silent =>
      rw [if_neg unclaimed, silent]
      simpa [Told] using so e there

theorem told_once (p : Passes {} h d) (there : d.board.entry? key = some e) : Told key h e := by
  induction h using List.reverseRecOn generalizing d e with
  | nil =>
      cases p
      cases there
  | append_singleton h m ih =>
      obtain ⟨first, takes⟩ := passes_concat_iff.mp p
      refine (takes.fate m.who key).told rfl ?_ there
      intro e₀ before
      exact ih first before

/-! ## The status goes forward -/

theorem Fate.leads {new : Option Entry} (fate : Fate m key (some e) new)
    (kept : m.event.1 ≠ toDesk .forgetStatements) :
    ∃ e', new = some e' ∧ e'.source = e.source ∧ e.status.Leads e'.status := by
  cases fate with
  | settled found => exact ⟨_, rfl, e.settled_source found, e.settled_leads found⟩
  | activated probe => exact ⟨_, rfl, e.activated_source probe, e.activated_leads probe⟩
  | forgotten _ forgets => exact absurd forgets kept
  | left => exact ⟨e, rfl, rfl, .stay _⟩

theorem status_leads (p : Passes d h d')
    (kept : ∀ m ∈ h, m.event.1 ≠ toDesk .forgetStatements) (there : d.board.entry? key = some e) :
    ∃ e', d'.board.entry? key = some e' ∧ e'.source = e.source ∧ e.status.Leads e'.status := by
  induction p generalizing e with
  | nil d => exact ⟨e, there, rfl, .stay _⟩
  | @cons d d₁ d' ev h who takes rest ih =>
      obtain ⟨e₁, there₁, source₁, leads₁⟩ :=
        (there ▸ takes.fate who key).leads (kept _ (List.mem_cons_self ..))
      obtain ⟨e', there', source', leads'⟩ :=
        ih (fun m hm => kept m (List.mem_cons_of_mem _ hm)) there₁
      exact ⟨e', there', source'.trans source₁, leads₁.trans leads'⟩

/-! ## Last looks -/

theorem ran_ask {r : Desk.Request} {t : List surroundings.Event} {x : r.Result}
    (ran : Ran (ask r) t x) : t = [⟨toDesk r, x⟩] := by
  obtain ⟨y, u, rfl, last⟩ := ran_ask_iff.mp ran
  obtain ⟨rfl, rfl⟩ := ran_done_iff.mp last
  rfl

/-- Transcripts of the last looks at some statements, and how many were incomplete: each is looked
at, if at all, and settled. -/
inductive Flushed : List (String × Option Probe) → List surroundings.Event → Nat → Prop
  | nil : Flushed [] [] 0
  | cons {key : String} {probe : Option Probe} {rest : List (String × Option Probe)}
      {looks t : List surroundings.Event} {n : Nat} {found : Outcome} {x : Bool}
      (looking : ∀ e ∈ looks, ∃ r, e.1 = toPage r) (tail : Flushed rest t n) :
      Flushed ((key, probe) :: rest) (looks ++ ⟨toDesk (.settle key found), x⟩ :: t)
        ((if x ∧ found.message = Board.incompleteMessage then 1 else 0) + n)

theorem ran_onPage {p : Prog Page.signature α} {Q : α → Prop} {t : List surroundings.Event} {a : α}
    (yields : Yields Q p) (ran : Ran (onPage p) t a) : Q a ∧ ∀ e ∈ t, ∃ r, e.1 = toPage r := by
  refine ⟨ran.yields yields.run, ran.asked (P := fun r => ∃ q, r = toPage q) (asks_run ?_ p)⟩
  intro r
  exact ⟨⟨r, rfl⟩, fun x => trivial⟩

/-- How a statement without a satisfied last look comes to its end. -/
def giveUp (key : String) (rest : List (String × Option Probe)) : Program Nat :=
  (settle key (.fail Board.incompleteMessage)).bind fun x =>
    (flushAll rest).bind fun n => .done ((if x then 1 else 0) + n)

theorem flushAll_some (key : String) (p : Probe) (rest : List (String × Option Probe)) :
    flushAll ((key, some p) :: rest) = (onPage (p.look true)).bind fun
      | .satisfied found => (settle key found).bind fun _ => flushAll rest
      | _ => giveUp key rest := by
  show ((onPage (p.look true)).bind _).bind _ = _
  rw [Prog.bind_assoc]
  congr 1
  funext o
  cases o <;> rfl

theorem ran_giveUp {key : String} {probe : Option Probe} {rest : List (String × Option Probe)}
    {looks t : List surroundings.Event} {n : Nat} (looking : ∀ e ∈ looks, ∃ r, e.1 = toPage r)
    (ran : Ran (giveUp key rest) t n)
    (ih : ∀ {t n}, Ran (flushAll rest) t n → Flushed rest t n) :
    Flushed ((key, probe) :: rest) (looks ++ t) n := by
  obtain ⟨t₁, x, t₂, rfl, settled, ran⟩ := ran_bind_iff.mp ran
  obtain ⟨t₃, k, t₄, rfl, flushed, ran⟩ := ran_bind_iff.mp ran
  obtain ⟨rfl, rfl⟩ := ran_done_iff.mp ran
  rw [ran_ask settled, List.append_nil]
  have counted : Flushed ((key, probe) :: rest)
      (looks ++ ⟨toDesk (.settle key (.fail Board.incompleteMessage)), x⟩ :: t₃) _ :=
    .cons looking (ih flushed)
  simpa [Outcome.fail] using counted

theorem flushAll_flushed {probes : List (String × Option Probe)} {t : List surroundings.Event}
    {n : Nat} (ran : Ran (flushAll probes) t n) : Flushed probes t n := by
  induction probes generalizing t n with
  | nil =>
      obtain ⟨rfl, rfl⟩ := ran_done_iff.mp ran
      exact .nil
  | cons first rest ih =>
      obtain ⟨key, probe⟩ := first
      cases probe with
      | none =>
          have none : ∀ e ∈ ([] : List surroundings.Event), ∃ r, e.1 = toPage r := by simp
          exact ran_giveUp none ran ih
      | some p =>
          rw [flushAll_some] at ran
          obtain ⟨looks, o, t, rfl, looked, ran⟩ := ran_bind_iff.mp ran
          obtain ⟨plain, looking⟩ := ran_onPage (p.look_plain true) looked
          cases o with
          | unmet | gone => exact ran_giveUp looking ran ih
          | satisfied found =>
              obtain ⟨t₁, x, t₂, rfl, settled, ran⟩ := ran_bind_iff.mp ran
              rw [ran_ask settled]
              have other : found.message ≠ Board.incompleteMessage := by
                rintro eq
                exact plain (by simp [reservedMessages, eq])
              have counted : Flushed ((key, some p) :: rest)
                  (looks ++ ⟨toDesk (.settle key found), x⟩ :: t₂) _ := .cons looking (ih ran)
              simpa [other] using counted

theorem ran_flush {t : List surroundings.Event} {n : Nat} (ran : Ran flush t n) :
    ∃ probes looks, t = ⟨toDesk .stopWatches, ()⟩ :: ⟨toDesk .outstanding, probes⟩ ::
      (looks ++ [⟨toDesk .stopWatches, ()⟩]) ++ [⟨toDesk .forgetStatements, ()⟩] ∧
      Flushed probes looks n := by
  obtain ⟨_, _, t, rfl, stopped, ran⟩ := ran_bind_iff.mp ran
  obtain ⟨_, probes, t, rfl, listed, ran⟩ := ran_bind_iff.mp ran
  obtain ⟨looks, k, t, rfl, looked, ran⟩ := ran_bind_iff.mp ran
  obtain ⟨_, _, t, rfl, cleaned, last⟩ := ran_bind_iff.mp ran
  obtain ⟨_, _, _, rfl, again, forgot⟩ := ran_bind_iff.mp cleaned
  obtain ⟨rfl, rfl⟩ := ran_done_iff.mp last
  refine ⟨probes, looks, ?_, flushAll_flushed looked⟩
  rw [ran_ask stopped, ran_ask listed, ran_ask again, ran_ask forgot]
  simp

/-- An event by which a statement comes to its end as incomplete. -/
def incomplete : surroundings.Event → Bool
  | ⟨toDesk (.settle _ found), x⟩ => (x : Bool) && found.message = Board.incompleteMessage
  | _ => false

theorem Flushed.count {probes : List (String × Option Probe)} {t : List surroundings.Event}
    {n : Nat} (flushed : Flushed probes t n) : t.countP incomplete = n := by
  induction flushed with
  | nil => rfl
  | @cons key probe rest looks t n found x looking tail ih =>
      have none : looks.countP incomplete = 0 := by
        rw [List.countP_eq_zero]
        intro e he
        obtain ⟨r, page⟩ := looking e he
        obtain ⟨q, y⟩ := e
        cases page
        exact Bool.false_ne_true
      rw [List.countP_append, none, List.countP_cons, ih, Nat.zero_add, Nat.add_comm]
      congr 1
      simp [incomplete]

/-- What the end of a test asks. -/
inductive Flushing : surroundings.Request → Prop
  | look (r : Page.Request) : Flushing (toPage r)
  | settle (key : String) (found : Outcome) : Flushing (toDesk (.settle key found))
  | stopWatches : Flushing (toDesk .stopWatches)
  | outstanding : Flushing (toDesk .outstanding)
  | forgetStatements : Flushing (toDesk .forgetStatements)

theorem Flushed.flushing {probes : List (String × Option Probe)} {t : List surroundings.Event}
    {n : Nat} (flushed : Flushed probes t n) :
    ∀ ev ∈ t, Flushing ev.1 ∧ ev.1 ≠ toDesk .forgetStatements := by
  induction flushed with
  | nil => simp
  | cons looking tail ih =>
      intro ev mem
      rcases List.mem_append.mp mem with mem | mem
      · obtain ⟨r, page⟩ := looking ev mem
        rw [page]
        refine ⟨.look r, ?_⟩
        intro eq
        cases eq
      · rcases List.mem_cons.mp mem with rfl | mem
        · refine ⟨.settle _ _, ?_⟩
          intro eq
          cases eq
        · exact ih ev mem

/-- Each open statement is settled. -/
theorem Flushed.settles {probes : List (String × Option Probe)} {t : List surroundings.Event}
    {n : Nat} (flushed : Flushed probes t n) {key : String} {probe : Option Probe}
    (there : (key, probe) ∈ probes) :
    ∃ ev ∈ t, ∃ found, settling? ev.1 = some (key, found) := by
  induction flushed with
  | nil => cases there
  | cons looking tail ih =>
      rcases List.mem_cons.mp there with first | there
      · cases first
        exact ⟨_, List.mem_append_right _ (List.mem_cons_self ..), _, rfl⟩
      · obtain ⟨ev, mem, found, settling⟩ := ih there
        exact ⟨ev, List.mem_append_right _ (List.mem_cons_of_mem _ mem), found, settling⟩

/-! ## What is settled stays settled -/

/-- No statement with this key is open. -/
def Shut (key : String) (d : Desk) : Prop :=
  ∀ e, d.board.entry? key = some e → e.status.isFinal

theorem Fate.shut {old new : Option Entry} (fate : Fate m key old new)
    (unclaimed : claimed? m.event ≠ some key) (shut : ∀ e, old = some e → e.status.isFinal) :
    ∀ e, new = some e → e.status.isFinal := by
  intro e there
  cases fate with
  | claimed c claimed => exact absurd claimed unclaimed
  | settled found old =>
      obtain ⟨e₀, rfl, rfl⟩ := Option.map_eq_some_iff.mp there
      exact e₀.settled_isFinal found
  | activated probe old =>
      obtain ⟨e₀, rfl, rfl⟩ := Option.map_eq_some_iff.mp there
      rw [e₀.activated_isFinal]
      exact shut e₀ rfl
  | forgotten => cases there
  | left old => exact shut e there

theorem shut_settle (d : Desk) (key : String) (found : Outcome) :
    Shut key (d.settle key found).2 := by
  intro e there
  rw [board_settle, Board.lookup_settle, if_pos rfl] at there
  obtain ⟨e₀, _, rfl⟩ := Option.map_eq_some_iff.mp there
  exact e₀.settled_isFinal found

theorem Takes.shut_of_settling {ev : surroundings.Event} {found : Outcome} (takes : Takes d ev d')
    (settling : settling? ev.1 = some (key, found)) : Shut key d' := by
  cases takes.effect with
  | served r =>
      cases r with
      | settle name found =>
          cases settling
          exact shut_settle d key found
      | _ => cases settling
  | reported name satisfied found =>
      cases settling
      exact shut_settle d key found
  | elsewhere _ notSettling => cases notSettling.symm.trans settling

theorem Passes.shut (p : Passes d h d') (unclaimed : ∀ m ∈ h, claimed? m.event ≠ some key)
    (shut : Shut key d ∨ ∃ m ∈ h, ∃ found, settling? m.event.1 = some (key, found)) :
    Shut key d' := by
  induction p with
  | nil d =>
      rcases shut with shut | ⟨m, mem, _⟩
      · exact shut
      · cases mem
  | @cons d d₁ d' ev h who takes rest ih =>
      refine ih (fun m hm => unclaimed m (List.mem_cons_of_mem _ hm)) ?_
      rcases shut with shut | ⟨m, mem, found, settling⟩
      · exact .inl ((takes.fate who key).shut (unclaimed _ (List.mem_cons_self ..)) shut)
      · rcases List.mem_cons.mp mem with rfl | mem
        · exact .inl (takes.shut_of_settling settling)
        · exact .inr ⟨m, mem, found, settling⟩

/-! ## The end of a test -/

theorem mem_of_mem_own {i : Nat} {ev : surroundings.Event} (mine : ev ∈ own i h) :
    ∃ m ∈ h, m.event = ev := by
  obtain ⟨m, mem, eq⟩ := List.mem_map.mp mine
  exact ⟨m, (List.mem_filter.mp mem).1, eq⟩

/-- Where a task's own events split, the history does. -/
theorem own_split {i : Nat} {ev : surroundings.Event} {s t : List surroundings.Event}
    (eq : own i h = s ++ ev :: t) :
    ∃ h₁ d₁ h₂, h = h₁ ++ ⟨i, d₁, ev⟩ :: h₂ ∧ own i h₁ = s ∧ own i h₂ = t := by
  induction h generalizing s with
  | nil => simp [own] at eq
  | cons m h ih =>
      obtain ⟨who, d₁, ev'⟩ := m
      by_cases mine : who = i
      · subst mine
        rw [own_cons, if_pos rfl] at eq
        cases s with
        | nil =>
            cases eq
            exact ⟨[], d₁, h, rfl, rfl, rfl⟩
        | cons first s =>
            obtain ⟨rfl, tail⟩ := List.cons.inj eq
            obtain ⟨h₁, d₂, h₂, rfl, head, rest⟩ := ih tail
            refine ⟨⟨who, d₁, ev'⟩ :: h₁, d₂, h₂, rfl, ?_, rest⟩
            rw [own_cons, if_pos rfl, head]
      · rw [own_cons, if_neg mine] at eq
        obtain ⟨h₁, d₂, h₂, rfl, head, rest⟩ := ih eq
        refine ⟨⟨who, d₁, ev'⟩ :: h₁, d₂, h₂, rfl, ?_, rest⟩
        rw [own_cons, if_neg mine, head]

theorem Passes.takes (p : Passes d h d') (mem : m ∈ h) : ∃ d₁, Takes m.desk m.event d₁ := by
  induction p with
  | nil => cases mem
  | cons who takes rest ih =>
      rcases List.mem_cons.mp mem with rfl | mem
      · exact ⟨_, takes⟩
      · exact ih mem

theorem append_cons_eq_concat {α : Type} {a b c : List α} {x : α} (eq : a ++ x :: b = c ++ [x])
    (once : x ∉ c) : a = c := by
  rcases List.append_eq_append_iff.mp eq with ⟨s, rfl, tail⟩ | ⟨s, rfl, tail⟩
  · cases s with
    | nil => simp
    | cons y s =>
        cases tail
        exact absurd (by simp) once
  · cases s with
    | nil => simp
    | cons y s => simp at tail

/-- A verdict that a statement was incomplete. -/
def saysIncomplete (e : Run.Event) : Bool :=
  e.verdict?.any (·.message = Board.incompleteMessage)

theorem incomplete_eq {i : Nat} {ev : surroundings.Event} (takes : Takes d ev d')
    (flushing : Flushing ev.1) :
    incomplete ev = ((Moment.mk i d ev).told?.map saysIncomplete).getD false := by
  obtain ⟨r, x⟩ := ev
  cases flushing with
  | settle key found =>
      have answered : x = (d.settle key found).1 := (congrArg Prod.fst takes.served).symm
      have told : (Moment.mk i d ⟨toDesk (.settle key found), x⟩).told? =
          (d.board.settle key found).1.map .verdict := by
        rw [told?_of_not_tell (by rintro r ⟨⟩), verdict?_of_settling rfl, Option.map_map]
        rfl
      rw [told, answered]
      show ((d.settle key found).1 && _) = _
      rw [answer_settle, Board.settle_eq]
      cases (d.board.entry? key).filter fun e => !e.status.isFinal with
      | none => rfl
      | some e => simp [saysIncomplete, Run.Event.verdict?]
  | look | stopWatches | outstanding | forgetStatements => rfl

/-- The number of incomplete statements is the number of such verdicts told. -/
theorem flush_counts {i n : Nat} (p : Passes d h d') (ran : Ran flush (own i h) n) :
    n = ((h.filter (·.who = i)).filterMap Moment.told?).countP saysIncomplete := by
  obtain ⟨probes, looks, eq, flushed⟩ := ran_flush ran
  have flushing : ∀ ev ∈ own i h, Flushing ev.1 := by
    intro ev mem
    simp only [eq, List.mem_append, List.mem_cons, List.not_mem_nil, or_false] at mem
    rcases mem with (rfl | rfl | mem | rfl) | rfl
    · exact .stopWatches
    · exact .outstanding
    · exact (flushed.flushing ev mem).1
    · exact .stopWatches
    · exact .forgetStatements
  have counted : (own i h).countP incomplete = n := by
    rw [eq, List.countP_append, List.countP_cons, List.countP_cons, List.countP_append,
      flushed.count]
    rfl
  rw [← counted, own, List.countP_map, List.countP_filterMap]
  refine List.countP_congr ?_
  intro m mem
  obtain ⟨d₁, takes⟩ := p.takes (List.mem_filter.mp mem).1
  rw [Function.comp_apply, incomplete_eq (i := m.who) takes (flushing _ (List.mem_map_of_mem mem))]

theorem shut_or_outstanding (key : String) (d : Desk) :
    Shut key d ∨ ∃ probe, (key, probe) ∈ d.board.outstanding := by
  cases there : d.board.entry? key with
  | none =>
      refine .inl ?_
      intro e here
      cases there.symm.trans here
  | some e =>
      by_cases final : e.status.isFinal
      · refine .inl ?_
        intro e' here
        cases there.symm.trans here
        exact final
      · exact .inr ⟨e.probe, Board.mem_outstanding there (by simpa using final)⟩

/-- The statements that the end of a test forgets are settled, unless others are claimed while it
goes on. -/
theorem flush_shuts {i n : Nat} {before during after : List Moment} {dₑ : Desk}
    (q : Passes d during dₑ)
    (ran : Ran flush
      (own i (before ++ during ++ ⟨i, dₑ, ⟨toDesk .forgetStatements, ()⟩⟩ :: after)) n)
    (fresh : own i before = []) (unclaimed : ∀ m ∈ during, claimed? m.event ≠ some key) :
    Shut key dₑ := by
  obtain ⟨probes, looks, eq, flushed⟩ := ran_flush ran
  rw [own_append, own_append, fresh, own_cons, if_pos rfl, List.nil_append] at eq
  have once : (⟨toDesk .forgetStatements, ()⟩ : surroundings.Event) ∉
      ⟨toDesk .stopWatches, ()⟩ :: ⟨toDesk .outstanding, probes⟩ ::
        (looks ++ [⟨toDesk .stopWatches, ()⟩]) := by
    intro mem
    simp only [List.mem_append, List.mem_cons, List.not_mem_nil, or_false] at mem
    rcases mem with eq | eq | mem | eq
    · cases eq
    · cases eq
    · exact (flushed.flushing _ mem).2 rfl
    · cases eq
  have mine := append_cons_eq_concat eq once
  obtain ⟨h₁, dₒ, h₂, rfl, -, rest⟩ := own_split (s := [_]) mine
  obtain ⟨-, _, takes, rest'⟩ := q.split
  obtain ⟨rfl, rfl⟩ := Prod.mk.inj takes.served
  refine rest'.shut (fun m' mem => unclaimed m' (by simp [mem])) ?_
  obtain shut | ⟨probe, outstanding⟩ := shut_or_outstanding key dₒ
  · exact .inl shut
  · obtain ⟨ev, mem, found, settling⟩ := flushed.settles outstanding
    have mem : ev ∈ own i h₂ := by
      rw [rest]
      exact List.mem_append_left _ mem
    obtain ⟨m', mem', rfl⟩ := mem_of_mem_own mem
    exact .inr ⟨m', mem', found, settling⟩

/-- Every statement is settled once, whoever settles it. In every history of a new desk, the
followers are told what its moments say. As long as a statement is on the board, the verdicts on it
since it was put there are none while it is open and one when it is settled, and its status goes
from pending to active, from one of these to complete or failed, and no further. Where a task ends
a test, it counts the verdicts by which it told that a statement was incomplete, and of each
statement that it forgets one verdict was told, unless some were claimed while it went on. -/
theorem statements_settle_once (p : Passes {} h d) :
    d.told = (h.filterMap Moment.told?).reverse ∧
    (∀ key e, d.board.entry? key = some e →
      (tally key h).length = if e.status.isFinal then 1 else 0) ∧
    (∀ before since d₁ key e, h = before ++ since → Passes {} before d₁ → Passes d₁ since d →
      (∀ m ∈ since, m.event.1 ≠ toDesk .forgetStatements) → d₁.board.entry? key = some e →
      ∃ e', d.board.entry? key = some e' ∧ e'.source = e.source ∧ e.status.Leads e'.status) ∧
    ∀ i n, Ran flush (own i h) n →
      n = ((h.filter (·.who = i)).filterMap Moment.told?).countP saysIncomplete ∧
      ∀ before during dₑ after key e,
        h = before ++ during ++ ⟨i, dₑ, ⟨toDesk .forgetStatements, ()⟩⟩ :: after →
        own i before = [] → (∀ m ∈ during, claimed? m.event = none) →
        dₑ.board.entry? key = some e → (tally key (before ++ during)).length = 1 := by
  refine ⟨?_, ?_, ?_, ?_⟩
  · simpa using p.told
  · intro key e there
    exact told_once p there
  · intro before since d₁ key e _ _ q kept there
    exact status_leads q kept there
  · intro i n ran
    refine ⟨flush_counts p ran, ?_⟩
    rintro before during dₑ after key e rfl fresh unclaimed there
    obtain ⟨first, -⟩ := p.split
    obtain ⟨d₂, -, q⟩ := passes_append_iff.mp first
    have shut : Shut key dₑ := by
      refine flush_shuts q ran fresh fun m mem => ?_
      rw [unclaimed m mem]
      exact (Option.some_ne_none key).symm
    have once : Told key (before ++ during) e := told_once first there
    rw [once, if_pos (shut e there)]

/-! A test ends while the element of a statement is still looked for, and is found afterwards. -/
namespace LateSetup

def command : Command :=
  { line := 0, code := ["verify"], src := "verify", timeout := 5000, verifyType := some .text }

def name : String := "text" ++ ":" ++ "verify"

def verdict : Run.Verdict := ⟨"verify", false, Board.incompleteMessage⟩

def opened : Desk := { board := { entries := [(name, { source := "verify" })] } }

def closed : Desk where
  board := { entries := [(name, { source := "verify", status := .failed })], results := [verdict] }
  told := [.verdict verdict]

def ended : Desk := { closed with board := { closed.board with entries := [] } }

def before : List Moment := [⟨1, {}, ⟨toDesk (.claim command), some name⟩⟩]

def during : List Moment := [
  ⟨2, opened, ⟨toDesk .stopWatches, ()⟩⟩,
  ⟨2, opened, ⟨toDesk .outstanding, [(name, none)]⟩⟩,
  ⟨2, opened, ⟨toDesk (.settle name (.fail Board.incompleteMessage)), true⟩⟩,
  ⟨1, closed, ⟨toDesk (.settle name (.pass "It is there")), false⟩⟩,
  ⟨2, closed, ⟨toDesk .stopWatches, ()⟩⟩]

def history : List Moment :=
  before ++ during ++ [⟨2, closed, ⟨toDesk .forgetStatements, ()⟩⟩]

theorem passes : Passes {} history ended := by
  refine .cons 1 (takes_of_serve ?_ : Takes _ _ opened) ?_
  · rfl
  refine .cons 2 (takes_of_serve ?_ : Takes _ _ opened) ?_
  · rfl
  refine .cons 2 (takes_of_serve ?_ : Takes _ _ opened) ?_
  · simp [Desk.serve, Board.outstanding, opened, Board.Status.isFinal]
  refine .cons 2 (takes_of_serve ?_ : Takes _ _ closed) ?_
  · rfl
  refine .cons 1 (takes_of_serve ?_ : Takes _ _ closed) ?_
  · rfl
  refine .cons 2 (takes_of_serve ?_ : Takes _ _ closed) ?_
  · rfl
  exact .cons 2 (takes_of_serve rfl) (.nil _)

theorem ran : Ran flush (own 2 history) 1 :=
  .ask _ (.ask _ (.ask _ (.ask _ (.ask _ (.done _)))))

theorem unclaimed : ∀ m ∈ during, claimed? m.event = none := by
  iterate 5 refine List.forall_mem_cons.mpr ⟨rfl, ?_⟩
  exact List.forall_mem_nil _

end LateSetup

theorem statements_settle_once_late_setup :
    1 = ((LateSetup.history.filter (·.who = 2)).filterMap Moment.told?).countP saysIncomplete ∧
    (tally LateSetup.name (LateSetup.before ++ LateSetup.during)).length = 1 := by
  obtain ⟨-, -, -, ends⟩ := statements_settle_once LateSetup.passes
  obtain ⟨counted, once⟩ := ends 2 1 LateSetup.ran
  exact ⟨counted, once _ _ LateSetup.closed [] LateSetup.name _ rfl rfl LateSetup.unclaimed rfl⟩

end BrowserScript.Session
