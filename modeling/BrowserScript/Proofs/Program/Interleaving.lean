import BrowserScript.Program.Basic
import Mathlib.Data.List.Induction
import Mathlib.Logic.Function.Basic

/-!
Programs that act in turn on what they share. A schedule lists whose turn it is; in a turn a
program has one request served.
-/

namespace BrowserScript

/-- What programs share, and what each of them has left to do. -/
structure Interleaved (S : Signature) (σ α : Type) where
  shared : σ
  programs : Nat → Prog S α

namespace Interleaved

variable {S : Signature} {σ α : Type}

def step (perform : (r : S.Request) → StateM σ (S.Answer r)) (c : Interleaved S σ α) (i : Nat) :
    Interleaved S σ α :=
  match c.programs i with
  | .done _ => c
  | .ask r next =>
    let (x, shared) := (perform r).run c.shared
    ⟨shared, Function.update c.programs i (next x)⟩

def run (perform : (r : S.Request) → StateM σ (S.Answer r)) (c : Interleaved S σ α)
    (schedule : List Nat) : Interleaved S σ α := schedule.foldl (step perform) c

variable {perform : (r : S.Request) → StateM σ (S.Answer r)} {c : Interleaved S σ α} {i : Nat}

theorem step_done {a : α} (h : c.programs i = .done a) : c.step perform i = c := by
  simp only [step, h]

theorem step_ask {r : S.Request} {next : S.Answer r → Prog S α} {x : S.Answer r} {shared : σ}
    (h : c.programs i = .ask r next) (served : (perform r).run c.shared = (x, shared)) :
    c.step perform i = ⟨shared, Function.update c.programs i (next x)⟩ := by
  simp only [step, h, served]

end Interleaved

/-! ## Schedules -/

namespace Schedule

/-- Who had the last of so many turns, in this order. -/
def endingsAfter (turns : Nat) (past : List Nat) : List Nat → List Nat
  | [] => []
  | i :: rest =>
    (if past.count i + 1 = turns then [i] else []) ++ endingsAfter turns (past ++ [i]) rest

def endings (turns : Nat) (schedule : List Nat) : List Nat := endingsAfter turns [] schedule

theorem endingsAfter_append (turns : Nat) (past p q : List Nat) :
    endingsAfter turns past (p ++ q) =
      endingsAfter turns past p ++ endingsAfter turns (past ++ p) q := by
  induction p generalizing past with
  | nil => simp [endingsAfter]
  | cons i p ih => simp [endingsAfter, ih]

theorem endings_concat (turns : Nat) (p : List Nat) (i : Nat) :
    endings turns (p ++ [i]) =
      endings turns p ++ if p.count i + 1 = turns then [i] else [] := by
  simp [endings, endingsAfter_append, endingsAfter]

theorem mem_endings_iff {turns : Nat} (some : 0 < turns) {p : List Nat} {i : Nat} :
    i ∈ endings turns p ↔ turns ≤ p.count i := by
  induction p using List.reverseRecOn with
  | nil => simp [endings, endingsAfter]; omega
  | append_singleton p j ih =>
      rw [endings_concat, List.mem_append, ih, List.count_append]
      by_cases h : j = i
      · subst h
        simp only [List.count_singleton_self]
        split <;> simp <;> omega
      · simp only [List.count_singleton, beq_iff_eq, h, if_false]
        split <;> simp [Ne.symm h]

theorem nodup_endings {turns : Nat} (some : 0 < turns) (p : List Nat) :
    (endings turns p).Nodup := by
  induction p using List.reverseRecOn with
  | nil => exact List.nodup_nil
  | append_singleton p j ih =>
      rw [endings_concat]
      split
      · refine List.nodup_append.mpr ⟨ih, List.pairwise_singleton _ j, ?_⟩
        rintro k hk _ hj rfl
        have before := (mem_endings_iff some).mp hk
        rw [List.mem_singleton.mp hj] at before
        omega
      · rwa [List.append_nil]

end Schedule

end BrowserScript
