import BrowserScript.Proofs.Program.Transcript
import BrowserScript.Proofs.Verification.Board
import BrowserScript.Session.Scene

/-!
Histories of a session's desk: what was asked, by whom and of which desk, in one order. Any number
of tasks take turns, and a turn may be as short as a single request, so every way in which tasks
can be interleaved is a history. Only the desk answers from what it keeps. Page, store, clock and
scheduler answer as they like, and so do waits: nothing here depends on them.
-/

namespace BrowserScript.Session

open Prog
open Verification (Outcome)
open Run (Verdict)
open Board (Entry)

@[match_pattern] abbrev toPage (r : Page.Request) : surroundings.Request := .inl (.inl r)

@[match_pattern] abbrev toDesk (r : Desk.Request) : surroundings.Request :=
  .inl (.inr (.inr (.inl r)))

@[match_pattern] abbrev toWatch (r : Watch.Request) : surroundings.Request :=
  .inl (.inr (.inr (.inr r)))

/-- A desk that stands by itself, while the page tells this about its changes. -/
def Desk.keeper (feed : Watch.Feed) : Keeper (StateM Desk) where
  onDesk f := fun d => f d
  feed := pure feed
  answerCaller _ _ _ := pure ()

/-- The desk after an event. -/
inductive Takes (d : Desk) : surroundings.Event → Desk → Prop
  | page (r : Page.Request) (x) : Takes d ⟨toPage r, x⟩ d
  | store (r : Store.Request) (x) : Takes d ⟨.inl (.inr (.inl r)), x⟩ d
  | scheduler (r : Tasks.Request Job) (x) : Takes d ⟨.inr r, x⟩ d
  | kept {r : bookkeeping.Request} {x} {d' : Desk} (now : Nat) (feed : Watch.Feed)
      (served : ((Desk.keeper feed).keep now r).run d = (some x, d')) :
      Takes d ⟨.inl (.inr (.inr r)), x⟩ d'

theorem takes_of_serve {d d' : Desk} {r : Desk.Request} {x : r.Result}
    (served : Desk.serve r d = (x, d')) :
    Takes d ⟨toDesk r, x⟩ d' := by
  refine .kept 0 .none ?_
  exact congrArg (fun (y, d'') => (some y, d'')) served

theorem Takes.served {d d' : Desk} {r : Desk.Request} {x : r.Result}
    (takes : Takes d ⟨toDesk r, x⟩ d') : Desk.serve r d = (x, d') := by
  cases takes with
  | kept now feed served =>
      cases served
      rfl

/-- One request of a task, with the desk it came to. -/
structure Moment where
  who : Nat
  desk : Desk
  event : surroundings.Event

inductive Passes : Desk → List Moment → Desk → Prop
  | nil (d : Desk) : Passes d [] d
  | cons {d d' d'' : Desk} {e : surroundings.Event} {h : List Moment} (who : Nat)
      (takes : Takes d e d') (rest : Passes d' h d'') : Passes d (⟨who, d, e⟩ :: h) d''

/-- What one of the tasks asked, with the answers. -/
def own (i : Nat) (h : List Moment) : List surroundings.Event :=
  (h.filter (·.who = i)).map (·.event)

variable {d d' d'' : Desk} {h h' : List Moment} {m : Moment} {e : surroundings.Event}
  {key : String} {i : Nat}

theorem passes_append_iff :
    Passes d (h ++ h') d'' ↔ ∃ d', Passes d h d' ∧ Passes d' h' d'' := by
  constructor
  · intro whole
    induction h generalizing d with
    | nil => exact ⟨d, .nil d, whole⟩
    | cons m h ih =>
        cases whole with
        | cons who takes rest =>
            obtain ⟨d', first, last⟩ := ih rest
            exact ⟨d', .cons who takes first, last⟩
  · rintro ⟨d', first, last⟩
    induction first with
    | nil => exact last
    | cons who takes _ ih => exact .cons who takes (ih last)

/-- A history up to one of its moments, and from there. -/
theorem Passes.split {d₁ : Desk} (p : Passes d (h ++ ⟨i, d₁, e⟩ :: h') d'') :
    Passes d h d₁ ∧ ∃ d₂, Takes d₁ e d₂ ∧ Passes d₂ h' d'' := by
  obtain ⟨d', first, last⟩ := passes_append_iff.mp p
  cases last with
  | cons who takes rest => exact ⟨first, _, takes, rest⟩

theorem passes_concat_iff :
    Passes d (h ++ [m]) d'' ↔ Passes d h m.desk ∧ Takes m.desk m.event d'' := by
  rw [passes_append_iff]
  constructor
  · rintro ⟨d', first, last⟩
    cases last with
    | cons who takes rest =>
        cases rest
        exact ⟨first, takes⟩
  · rintro ⟨first, takes⟩
    exact ⟨m.desk, first, .cons m.who takes (.nil _)⟩

theorem own_append : own i (h ++ h') = own i h ++ own i h' := by
  simp [own]

theorem own_cons : own i (m :: h) = if m.who = i then m.event :: own i h else own i h := by
  by_cases mine : m.who = i <;> simp [own, mine]

/-! ## What an event does to the desk -/

/-- The statement that a request settles unless it is settled already. -/
def settling? : surroundings.Request → Option (String × Outcome)
  | toDesk (.settle key found) | toWatch (.report (.statement key) _ found) => some (key, found)
  | _ => none

inductive Effect (d : Desk) : surroundings.Event → Desk → Prop
  | served (r : Desk.Request) : Effect d ⟨toDesk r, (Desk.serve r d).1⟩ (Desk.serve r d).2
  | reported (key : String) (satisfied : Bool) (found : Outcome) :
      Effect d ⟨toWatch (.report (.statement key) satisfied found), ()⟩ (d.settle key found).2
  | elsewhere {e : surroundings.Event} {d' : Desk} (notDesk : ∀ r, e.1 ≠ toDesk r)
      (notSettling : settling? e.1 = none) (board : d'.board = d.board) (test : d'.test = d.test)
      (told : d'.told = d.told) : Effect d e d'

/-- Watches and those who wait for them leave the board alone, unless they report. -/
theorem Effect.of_watch {r : Watch.Request} {x : r.Result} (other : settling? (toWatch r) = none)
    (board : d'.board = d.board) (test : d'.test = d.test) (told : d'.told = d.told) :
    Effect d ⟨toWatch r, x⟩ d' := by
  refine .elsewhere ?_ other board test told
  intro r' h
  cases h

theorem Takes.effect (h : Takes d e d') : Effect d e d' := by
  cases h with
  | page r x | store r x | scheduler r x =>
      refine .elsewhere ?_ rfl rfl rfl rfl
      intro r' h
      cases h
  | @kept r x d' now feed served =>
      rcases r with r | r
      · cases served
        exact .served r
      · have after := congrArg Prod.snd served
        change _ = d' at after
        subst after
        cases r with
        | report purpose satisfied found =>
            cases purpose with
            | statement key => exact .reported key satisfied found
            | caller name => exact .of_watch rfl rfl rfl rfl
        | enrol | isStopped | wait | leave | stop | join => exact .of_watch rfl rfl rfl rfl

/-! ## What the followers are told -/

namespace Moment

/-- The key of the statement that comes to its end, with the verdict on it. -/
def verdict? (m : Moment) : Option (String × Verdict) :=
  (settling? m.event.1).bind fun (key, found) =>
    (m.desk.board.settle key found).1.map fun v => (key, v)

/-- The verdict on a statement. -/
def verdictOn? (key : String) (m : Moment) : Option Verdict :=
  (m.verdict?.filter (·.1 = key)).map (·.2)

def told? (m : Moment) : Option Run.Event :=
  match m.event.1 with
  | toDesk (.tell e) => some e
  | _ => m.verdict?.map fun (_, v) => .verdict v

end Moment

/-- A desk settles as its board does, and tells of the verdict if there is one. -/
theorem settle_desk (d : Desk) (key : String) (found : Outcome) :
    d.settle key found = ((d.board.settle key found).1.isSome,
      { d with
        board := (d.board.settle key found).2
        told := ((d.board.settle key found).1.map Run.Event.verdict).toList ++ d.told }) := by
  unfold Desk.settle
  split
  · rename_i v board settled
    rw [settled]
    rfl
  · rename_i board settled
    rw [Board.settle_of_none (congrArg Prod.fst settled), settled]
    rfl

theorem told_settle (d : Desk) (key : String) (found : Outcome) :
    (d.settle key found).2.told =
      ((d.board.settle key found).1.map Run.Event.verdict).toList ++ d.told := by
  rw [settle_desk]

theorem board_settle (d : Desk) (key : String) (found : Outcome) :
    (d.settle key found).2.board = (d.board.settle key found).2 := by
  rw [settle_desk]

theorem test_settle (d : Desk) (key : String) (found : Outcome) :
    (d.settle key found).2.test = d.test := by
  rw [settle_desk]

theorem answer_settle (d : Desk) (key : String) (found : Outcome) :
    (d.settle key found).1 = (d.board.settle key found).1.isSome := by
  rw [settle_desk]

theorem told?_of_not_tell (notTell : ∀ r, e.1 ≠ toDesk (.tell r)) :
    (Moment.mk i d e).told? = (Moment.mk i d e).verdict?.map fun (_, v) => .verdict v := by
  unfold Moment.told?
  split
  · rename_i r eq
    exact absurd eq (notTell r)
  · rfl

theorem verdict?_of_settling {found : Outcome} (settling : settling? e.1 = some (key, found)) :
    (Moment.mk i d e).verdict? = (d.board.settle key found).1.map fun v => (key, v) := by
  simp [Moment.verdict?, settling]

theorem verdict?_of_other (other : settling? e.1 = none) : (Moment.mk i d e).verdict? = none := by
  simp [Moment.verdict?, other]

theorem told_of_settling {found : Outcome} (settling : settling? e.1 = some (key, found))
    (notTell : ∀ r, e.1 ≠ toDesk (.tell r)) :
    (d.settle key found).2.told = (Moment.mk i d e).told?.toList ++ d.told := by
  rw [told_settle, told?_of_not_tell notTell, verdict?_of_settling settling, Option.map_map]
  rfl

theorem serve_beginTest (t : Usability.Test) (d : Desk) :
    ∃ test, (Desk.serve (.beginTest t) d).2 = { d with test } := by
  cases running : d.test with
  | none => exact ⟨some t, by simp [Desk.serve, running]⟩
  | some active =>
      have same : Desk.serve (.beginTest t) d = (.error active.id, d) := by
        simp [Desk.serve, running]
      exact ⟨d.test, by rw [same]⟩

theorem Takes.told (i : Nat) (h : Takes d e d') :
    d'.told = (Moment.mk i d e).told?.toList ++ d.told := by
  cases h.effect with
  | reported key satisfied found =>
      refine told_of_settling rfl ?_
      intro r h
      cases h
  | elsewhere notDesk notSettling board test told =>
      rw [told, told?_of_not_tell fun r => notDesk _, verdict?_of_other notSettling]
      rfl
  | served r =>
      cases r with
      | tell r => rfl
      | settle key found =>
          refine told_of_settling rfl ?_
          intro r h
          cases h
      | beginTest t =>
          obtain ⟨test, eq⟩ := serve_beginTest t d
          rw [eq]
          rfl
      | claim | activate | stopWatches | outstanding | forgetStatements | forgetResults | results
      | status | running | test | endTest => rfl

/-- The followers were told what the moments say, the latest first. -/
theorem Passes.told (p : Passes d h d') :
    d'.told = (h.filterMap Moment.told?).reverse ++ d.told := by
  induction p with
  | nil d => rfl
  | cons who takes rest ih =>
      rw [ih, takes.told who, List.filterMap_cons]
      cases (Moment.mk who _ _).told? with
      | none => rfl
      | some r => simp

/-! ## What becomes of a statement -/

/-- The key under which a statement was put on the board. -/
def claimed? : surroundings.Event → Option String
  | ⟨toDesk (.claim _), x⟩ => x
  | _ => none

theorem claimed?_of_not_desk (notDesk : ∀ r, e.1 ≠ toDesk r) : claimed? e = none := by
  obtain ⟨r, x⟩ := e
  rcases r with (r | r | r | r) | r
  case inl.inr.inr.inl => exact absurd rfl (notDesk r)
  all_goals rfl

theorem verdictOn?_of_settling {name : String} {found : Outcome}
    (settling : settling? m.event.1 = some (name, found)) (other : key ≠ name) :
    m.verdictOn? key = none := by
  have verdict := verdict?_of_settling (i := m.who) (d := m.desk) settling
  rw [Moment.verdictOn?, verdict]
  cases (m.desk.board.settle name found).1 with
  | none => rfl
  | some v => simp [Option.filter, other.symm]

/-- What becomes of the statement with a key at a moment. -/
inductive Fate (m : Moment) (key : String) : Option Entry → Option Entry → Prop
  | claimed (c : Command) (claimed : claimed? m.event = some key) (silent : m.verdict? = none)
      (known : Board.key? c = some key) : Fate m key none (some { source := c.src })
  | settled (found : Outcome) (old : Option Entry)
      (settling : settling? m.event.1 = some (key, found)) (unclaimed : claimed? m.event = none) :
      Fate m key old (old.map (·.settled found))
  | activated (probe : Probe) (old : Option Entry) (unclaimed : claimed? m.event = none)
      (silent : m.verdict? = none) : Fate m key old (old.map (·.activated probe))
  | forgotten (old : Option Entry) (forgets : m.event.1 = toDesk .forgetStatements) :
      Fate m key old none
  | left (old : Option Entry) (unclaimed : claimed? m.event ≠ some key)
      (silent : m.verdictOn? key = none) : Fate m key old old

theorem Fate.of_quiet {old : Option Entry} (unclaimed : claimed? m.event = none)
    (silent : m.verdict? = none) : Fate m key old old := by
  refine .left old ?_ ?_
  · rw [unclaimed]
    exact (Option.some_ne_none key).symm
  · rw [Moment.verdictOn?, silent]
    rfl

theorem Fate.of_settling {name : String} {found : Outcome}
    (settling : settling? m.event.1 = some (name, found)) (unclaimed : claimed? m.event = none) :
    Fate m key (d.board.entry? key) ( Board.entry? (d.settle name found).2.board key) := by
  rw [board_settle, Board.lookup_settle]
  by_cases same : key = name
  · subst same
    rw [if_pos rfl]
    exact .settled found _ settling unclaimed
  · rw [if_neg same]
    refine .left _ ?_ ?_
    · rw [unclaimed]
      exact (Option.some_ne_none key).symm
    · exact verdictOn?_of_settling settling same

theorem Takes.fate (i : Nat) (key : String) (h : Takes d e d') :
    Fate ⟨i, d, e⟩ key (d.board.entry? key) (d'.board.entry? key) := by
  cases h.effect with
  | reported name satisfied found => exact .of_settling rfl rfl
  | elsewhere notDesk notSettling board test told =>
      rw [board]
      exact .of_quiet (claimed?_of_not_desk notDesk) (verdict?_of_other notSettling)
  | served r =>
      cases r with
      | claim c =>
          have silent : (Moment.mk i d ⟨toDesk (.claim c), (d.board.claim c).1⟩).verdict? = none :=
            rfl
          show Fate _ key _ ( Board.entry? (d.board.claim c).2 key)
          rw [Board.lookup_claim]
          by_cases mine : (d.board.claim c).1 = some key
          · obtain ⟨known, none⟩ := Board.claim_eq_some_iff.mp mine
            rw [if_pos mine, none]
            exact .claimed c mine silent known
          · rw [if_neg mine]
            exact .left _ mine rfl
      | settle name found => exact .of_settling rfl rfl
      | activate name probe watch =>
          show Fate _ key _ ( Board.entry? (d.board.activate name probe watch).2 key)
          rw [Board.lookup_activate]
          by_cases same : key = name
          · subst same
            rw [if_pos rfl]
            exact .activated probe _ rfl rfl
          · rw [if_neg same]
            exact .of_quiet rfl rfl
      | forgetStatements => exact .forgotten _ rfl
      | beginTest t =>
          obtain ⟨test, eq⟩ := serve_beginTest t d
          rw [eq]
          exact .of_quiet rfl rfl
      | tell | stopWatches | outstanding | forgetResults | results | status | running | test
      | endTest => exact .of_quiet rfl rfl

/-! ## Histories that are written down -/

/-- An event that a desk can meet, of those that leave watches aside. -/
def Fits (d : Desk) : surroundings.Event → Prop
  | ⟨toDesk r, x⟩ => (Desk.serve r d).1 = x
  | ⟨toWatch _, _⟩ => False
  | _ => True

def after (d : Desk) : surroundings.Event → Desk
  | ⟨toDesk r, _⟩ => (Desk.serve r d).2
  | _ => d

theorem Fits.takes (fits : Fits d e) : Takes d e (after d e) := by
  obtain ⟨r, x⟩ := e
  rcases r with (r | r | r | r) | r
  case inl.inr.inr.inl =>
    have answered : (Desk.serve r d).1 = x := fits
    subst answered
    exact takes_of_serve rfl
  case inl.inr.inr.inr => exact fits.elim
  case inl.inl => exact .page r x
  case inl.inr.inl => exact .store r x
  case inr => exact .scheduler r x

/-- What was asked, by whom, with the desks it came to. -/
def chronicle : Desk → List (Nat × surroundings.Event) → List Moment
  | _, [] => []
  | d, (who, e) :: rest => ⟨who, d, e⟩ :: chronicle (after d e) rest

/-- The desks can meet all of it. -/
def FitAll : Desk → List (Nat × surroundings.Event) → Prop
  | _, [] => True
  | d, (_, e) :: rest => Fits d e ∧ FitAll (after d e) rest

def afterAll (d : Desk) (asked : List (Nat × surroundings.Event)) : Desk :=
  asked.foldl (fun d e => after d e.2) d

theorem passes_chronicle {asked : List (Nat × surroundings.Event)} (fit : FitAll d asked) :
    Passes d (chronicle d asked) (afterAll d asked) := by
  induction asked generalizing d with
  | nil => exact .nil d
  | cons first rest ih => exact .cons first.1 fit.1.takes (ih fit.2)

theorem own_chronicle (i : Nat) (asked : List (Nat × surroundings.Event)) (d : Desk) :
    own i (chronicle d asked) = (asked.filter (·.1 = i)).map (·.2) := by
  induction asked generalizing d with
  | nil => rfl
  | cons first rest ih =>
      obtain ⟨who, e⟩ := first
      rw [chronicle, own_cons, ih, List.filter_cons]
      by_cases mine : who = i <;> simp [mine]

end BrowserScript.Session
