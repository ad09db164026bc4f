import BrowserScript.Proofs.Program.Notes
import BrowserScript.Verification.Watch

/-!
The phases of a watch: it looks, hears whether it was stopped, then tells its result or waits, and
each wake leads to another look, to another wait or to the end. A watch notes what its looks found,
which its requests do not show.
-/

namespace BrowserScript.Watch

open Prog
open Verification (Outcome)

/-- So many turns of a watch at most. -/
def turns {S : Signature} (turn : Job → Prog S (Option Job)) : Nat → Job → Prog S (Option Job)
  | 0, j => .done (some j)
  | n + 1, j => (turn j).bind fun
    | some next => turns turn n next
    | none => .done none

/-- A look, the last one or not. -/
structure Look where
  last : Bool
  found : Observation

/-- What a watch can ask that notes its looks. -/
abbrev noting : Signature := surroundings.noting Look

namespace Job

/-! ## Watches that note their looks -/

variable (j : Job)

end Job

/-! ## Phases -/

/-- What stays the same from turn to turn. -/
structure Errand where
  id : Nat
  probe : Probe
  purpose : Purpose
  terms : Terms
  expiry : Nat

inductive Phase
  | looking (last : Bool)
  | seen (look : Look)
  /-- It was not stopped. -/
  | heeding (look : Look)
  | waiting
  | told
  | stopped
  | ended

/-- What is told after a look: whether the probe is satisfied, and what was found. -/
def Errand.verdict? (e : Errand) : Look → Option (Bool × Outcome)
  | ⟨_, .satisfied found⟩ => some (true, found)
  | ⟨false, .gone found⟩ => some (false, found)
  | ⟨false, .unmet _⟩ => none
  | ⟨true, .gone found⟩ | ⟨true, .unmet found⟩ =>
    some (false, e.probe.expired found e.terms.deadline)

/-- The phase a wake leads to. -/
def Errand.woken (e : Errand) : Wake → Phase
  | .stopped => .stopped
  | .expired => .looking true
  | .tick _ | .lagged _ => .looking false
  | .change c => if e.probe.wants c then .looking false else .waiting
  | .closed => .waiting

inductive Step (e : Errand) : Phase → noting.Event → Phase → Prop
  | page {last : Bool} (r : Page.Request) (x : Page.signature.Answer r) :
      Step e (.looking last) ⟨.inr (.inl r), x⟩ (.looking last)
  | look {last : Bool} (found : Observation) :
      Step e (.looking last) ⟨.inl ⟨last, found⟩, ()⟩ (.seen ⟨last, found⟩)
  | stopped (l : Look) : Step e (.seen l) ⟨.inr (.inr (.isStopped e.id)), true⟩ .stopped
  | heed (l : Look) : Step e (.seen l) ⟨.inr (.inr (.isStopped e.id)), false⟩ (.heeding l)
  | tell {l : Look} {satisfied : Bool} {found : Outcome}
      (verdict : e.verdict? l = some (satisfied, found)) :
      Step e (.heeding l) ⟨.inr (.inr (.report e.purpose satisfied found)), ()⟩ .told
  | wait {p p' : Phase} {alarm : Alarm} (w : Wake)
      (idle : p = .waiting ∨ ∃ l, p = .heeding l ∧ e.verdict? l = none)
      (watch : alarm.watch = e.id) (expiry : alarm.expiry = e.expiry) (next : p' = e.woken w) :
      Step e p ⟨.inr (.inr (.wait alarm)), w⟩ p'
  | leave {p : Phase} (done : p = .told ∨ p = .stopped) :
      Step e p ⟨.inr (.inr (.leave e.id)), ()⟩ .ended

namespace Job

def errand (j : Job) : Errand := ⟨j.id, j.probe, j.purpose, j.terms, j.expiry⟩

/-- The phase in which a turn begins. -/
def phase (j : Job) : Phase := if j.pending then .looking false else .waiting

/-- How the turns of a watch end. -/
def Ends (e : Errand) (p : Phase) : Option Job → Prop
  | some j => j.errand = e ∧ p = j.phase
  | none => p = .ended

variable (j : Job)

end Job

end BrowserScript.Watch
