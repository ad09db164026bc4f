import BrowserScript.Proofs.Verification.Phases

/-!
What a watch tells, and when. Whatever the page answers, whatever wakes it and whenever it is
stopped: it tells one result at most and none after it was stopped, each result comes from the look
just before it, and it looks once at the beginning and once after each wake that calls for it.
-/

namespace BrowserScript.Watch

open Prog
open Verification (Outcome)

/-- What a watch told someone. -/
structure Call where
  purpose : Purpose
  satisfied : Bool
  found : Outcome

@[match_pattern] abbrev Call.event (c : Call) : surroundings.Event :=
  ⟨.inr (.report c.purpose c.satisfied c.found), ()⟩

def call? : surroundings.Event → Option Call
  | ⟨.inr (.report purpose satisfied found), _⟩ => some ⟨purpose, satisfied, found⟩
  | _ => none

def calls (t : List surroundings.Event) : List Call := t.filterMap call?

/-- What the course of a watch turns on. -/
inductive Mark
  | looked (look : Look)
  | woke (w : Wake)
  | called (c : Call)

def mark? : noting.Event → Option Mark
  | ⟨.inl look, _⟩ => some (.looked look)
  | ⟨.inr (.inr (.wait _)), w⟩ => some (.woke w)
  | ⟨.inr (.inr (.report purpose satisfied found)), _⟩ => some (.called ⟨purpose, satisfied, found⟩)
  | _ => none

def marks (u : List noting.Event) : List Mark := u.filterMap mark?

/-- Wakes after which a probe is looked at. -/
def Wake.Rouses (p : Probe) : Wake → Prop
  | .tick _ | .lagged _ | .expired => True
  | .change c => p.wants c
  | .closed | .stopped => False

section Phases

variable {e : Errand} {u : List noting.Event} {p : Phase}

/-- What happened so far calls for a look. -/
def Due (e : Errand) (last : Bool) (past : List Mark) : Prop :=
  last = false ∧ past = [] ∨
    ∃ before w, past = before ++ [.woke w] ∧ e.woken w = .looking last

def Since (e : Errand) (past : List Mark) : Phase → Prop
  | .looking last => Due e last past
  | .seen l | .heeding l => ∃ before, past = before ++ [.looked l] ∧ Due e l.last before
  | .waiting => ∃ before w, past = before ++ [.woke w] ∧ e.woken w = .waiting
  | .told | .stopped | .ended => True

theorem Errand.woken_cases (e : Errand) (w : Wake) :
    (w.Rouses e.probe ∧ ∃ last, e.woken w = .looking last ∧ (last = true → w = .expired)) ∨
      ¬ w.Rouses e.probe ∧ (e.woken w = .waiting ∨ w = .stopped ∧ e.woken w = .stopped) := by
  cases w with
  | expired => exact .inl ⟨trivial, true, rfl, fun _ => rfl⟩
  | tick | lagged => exact .inl ⟨trivial, false, rfl, nofun⟩
  | change c =>
      by_cases wanted : e.probe.wants c
      · exact .inl ⟨wanted, false, if_pos wanted, nofun⟩
      · exact .inr ⟨wanted, .inl (if_neg wanted)⟩
  | closed => exact .inr ⟨nofun, .inl rfl⟩
  | stopped => exact .inr ⟨nofun, .inr ⟨rfl, rfl⟩⟩

theorem since_woken (past : List Mark) (w : Wake) : Since e (past ++ [.woke w]) (e.woken w) := by
  obtain ⟨-, last, next, -⟩ | ⟨-, next | ⟨-, next⟩⟩ := e.woken_cases w <;> rw [next]
  · exact .inr ⟨past, w, rfl, next⟩
  · exact ⟨past, w, rfl, next⟩
  · trivial

theorem marks_concat (u : List noting.Event) (ev : noting.Event) :
    marks (u ++ [ev]) = marks u ++ (mark? ev).toList := filterMap_concat u ev

theorem reached_since (h : Reached (Step e) (.looking false) u p) : Since e (marks u) p := by
  induction h with
  | first => exact .inl ⟨rfl, rfl⟩
  | @step t s s' ev before step ih =>
      rw [marks_concat]
      cases step with
      | page r x => simpa [mark?] using ih
      | look found => exact ⟨_, rfl, ih⟩
      | heed l => simpa [mark?, Since] using ih
      | wait w idle watch expiry next =>
          rw [next]
          exact since_woken _ w
      | stopped | tell | leave => trivial

inductive Goes (e : Errand) (past : List Mark) : Mark → Prop
  | look {last : Bool} (seen : Observation) (due : Due e last past) :
      Goes e past (.looked ⟨last, seen⟩)
  | waitAgain {before : List Mark} {w : Wake} (w' : Wake) (after : past = before ++ [.woke w])
      (calm : e.woken w = .waiting) : Goes e past (.woke w')
  | wait {before : List Mark} {l : Look} (w' : Wake) (after : past = before ++ [.looked l])
      (unmet : e.verdict? l = none) : Goes e past (.woke w')
  | call {before : List Mark} {l : Look} {satisfied : Bool} {found : Outcome}
      (after : past = before ++ [.looked l]) (due : Due e l.last before)
      (verdict : e.verdict? l = some (satisfied, found)) :
      Goes e past (.called ⟨e.purpose, satisfied, found⟩)

theorem goes {past rest : List Mark} {m : Mark} (h : Reached (Step e) (.looking false) u p)
    (split : marks u = past ++ m :: rest) : Goes e past m := by
  obtain ⟨v, ev, p, p', before, step, rfl, is⟩ := h.at_of_filterMap split
  have since : Since e (marks v) p := reached_since before
  cases step with
  | look found =>
      cases is
      exact .look found since
  | tell verdict =>
      cases is
      obtain ⟨before, after, due⟩ := since
      exact .call after due verdict
  | wait w idle =>
      cases is
      obtain rfl | ⟨l, rfl, unmet⟩ := idle
      · obtain ⟨before, w', after, calm⟩ := since
        exact .waitAgain w after calm
      · obtain ⟨before, after, -⟩ := since
        exact .wait w after unmet
  | page | stopped | heed | leave => cases is

def HeardStop (t : List surroundings.Event) : Prop :=
  (∃ i, ⟨.inr (.isStopped i), true⟩ ∈ t) ∨ ∃ alarm, ⟨.inr (.wait alarm), .stopped⟩ ∈ t

theorem HeardStop.append {t : List surroundings.Event} (h : HeardStop t)
    (u : List surroundings.Event) : HeardStop (t ++ u) := by
  obtain ⟨i, there⟩ | ⟨alarm, there⟩ := h
  · exact .inl ⟨i, List.mem_append_left u there⟩
  · exact .inr ⟨alarm, List.mem_append_left u there⟩

end Phases

/-! ## Watches that are stopped -/

/-- What happens to a watch: what it does itself, and that it is stopped. -/
inductive Moment
  | own (ev : surroundings.Event)
  | stop

def own? : Moment → Option surroundings.Event
  | .own ev => some ev
  | .stop => none

def owns (h : List Moment) : List surroundings.Event := h.filterMap own?

/-- Requests before which others can act. Nothing happens between the answer that a watch was not
stopped and what it tells. -/
def Suspends : surroundings.Request → Prop
  | .inl _ | .inr (.isStopped _) | .inr (.wait _) => True
  | _ => False

/-- An answer that fits whether the watch was stopped before. -/
def Fits (stopped : Bool) : surroundings.Event → Prop
  | ⟨.inr (.isStopped _), answer⟩ => answer = stopped
  | ⟨.inr (.wait _), .stopped⟩ => stopped = true
  | _ => True

/-- A watch is stopped only while it is suspended, and hears of it when it asks. It may hear of it
from a wait, which ends in any other way as well. -/
def Orderly : Bool → List Moment → Prop
  | _, [] => True
  | stopped, .own ev :: rest => Fits stopped ev ∧ Orderly stopped rest
  | _, .stop :: rest => (∀ ev ∈ (owns rest).head?, Suspends ev.1) ∧ Orderly true rest

def wasStopped : List Moment → Bool
  | [] => false
  | .own _ :: rest => wasStopped rest
  | .stop :: _ => true

theorem Feed.ne_of_next? {feed : Feed} {position : Nat} {w : Wake}
    (h : feed.next? position = some w) : w ≠ .stopped ∧ w ≠ .expired := by
  cases feed with
  | none => cases h
  | closed =>
      cases h
      exact ⟨nofun, nofun⟩
  | changes all kept =>
      simp only [Feed.next?] at h
      split at h
      · cases h
        exact ⟨nofun, nofun⟩
      · obtain ⟨c, -, rfl⟩ := Option.map_eq_some_iff.mp h
        exact ⟨nofun, nofun⟩

/-- A stopped watch hears of it before anything else, and time has run out just from its expiry on. -/
theorem Alarm.wake?_cases {a : Alarm} {now : Nat} {stopped : Bool} {feed : Feed} {w : Wake}
    (h : a.wake? now stopped feed = some w) :
    (stopped = true ∧ w = .stopped) ∨ (stopped = false ∧ a.expiry ≤ now ∧ w = .expired) ∨
      (stopped = false ∧ now < a.expiry ∧ w ≠ .stopped ∧ w ≠ .expired) := by
  unfold Alarm.wake? at h
  cases stopped with
  | true =>
      cases h
      exact .inl ⟨rfl, rfl⟩
  | false =>
      rw [if_neg nofun] at h
      split at h
      · cases h
        exact .inr (.inl ⟨rfl, ‹_›, rfl⟩)
      · refine .inr (.inr ⟨rfl, Nat.lt_of_not_le ‹_›, ?_⟩)
        split at h
        · cases h
          exact ⟨nofun, nofun⟩
        · obtain ⟨position, -, news⟩ := Option.bind_eq_some_iff.mp h
          exact Feed.ne_of_next? news

/-- The waits that the session ends are answered as they have to be. -/
theorem Alarm.fits_of_wake? {a : Alarm} {now : Nat} {stopped : Bool} {feed : Feed} {w : Wake}
    (h : a.wake? now stopped feed = some w) : Fits stopped ⟨.inr (.wait a), w⟩ := by
  obtain ⟨rfl, rfl⟩ | ⟨rfl, -, rfl⟩ | ⟨rfl, -, ne, -⟩ := Alarm.wake?_cases h
  · rfl
  · trivial
  · cases w with
    | stopped => exact absurd rfl ne
    | expired | tick | change | lagged | closed => trivial

section Moments

variable {stopped : Bool} {before rest : List Moment}

theorem Orderly.after (h : Orderly stopped (before ++ rest)) :
    Orderly (stopped || wasStopped before) rest := by
  induction before generalizing stopped with
  | nil => simpa [wasStopped] using h
  | cons m before ih =>
      cases m with
      | own ev => exact ih h.2
      | stop => simpa [wasStopped] using ih h.2

end Moments

namespace Sample

def job (terms : Terms) : Job := .begin 0 0 (some 0) (.page .title .equals "b") terms (.caller "w")

def title (text : String) : Moment := .own ⟨.inl .title, .ok text⟩

def stopped (answer : Bool) : Moment := .own ⟨.inr (.isStopped 0), answer⟩

def found : Outcome := Outcome.withActual (.pass "Page title equals \"b\" verified") "b"

/-- The title becomes right between two regular looks. It is stopped after it has told so. -/
def history : List Moment := [
  title "a", stopped false, .own ⟨.inr (.wait ⟨0, 1000, some 100, some 0⟩), .tick 100⟩,
  title "b", stopped false, .own ⟨.inr (.report (.caller "w") true found), ()⟩,
  .own ⟨.inr (.leave 0), ()⟩, .stop]

theorem ran : Ran (turns Job.turn 2 (job ⟨1000, 100⟩)) (owns history) none :=
  .ask _ (.ask _ (.ask _ (.ask _ (.ask _ (.ask _ (.ask _ (.done _)))))))

end Sample

end BrowserScript.Watch
