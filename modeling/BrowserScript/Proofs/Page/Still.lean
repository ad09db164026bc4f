import BrowserScript.Page.Request

/-!
Surroundings that stay as they are: whenever a request is made, it has the same answer. There a
program has one result, and the result of a program in two parts is that of the second part on the
first.
-/

namespace BrowserScript

namespace Prog

variable {S T : Signature} {α β : Type}

/-- What a program ends with where a request has the same answer whenever it is made. -/
def still (w : (r : S.Request) → S.Answer r) (p : Prog S α) : α := p.run (m := Id) w

theorem still_bind (w : (r : S.Request) → S.Answer r) (p : Prog S α) (f : α → Prog S β) :
    (p.bind f).still w = (f (p.still w)).still w := by
  induction p with
  | done a => rfl
  | ask r next ih => exact ih (w r)

theorem still_run (w : (r : T.Request) → T.Answer r) (serve : (r : S.Request) → Prog T (S.Answer r))
    (p : Prog S α) : (p.run serve).still w = p.still fun r => (serve r).still w := by
  induction p with
  | done a => rfl
  | ask r next ih => exact (still_bind w (serve r) _).trans (ih _)

end Prog

namespace Page

open Prog

/-- How a page answers as long as it stays as it is. -/
abbrev Answers : Type := (r : signature.Request) → signature.Answer r

namespace Access

variable {α β : Type} {w : Answers}

/-- What an access comes to on such a page. -/
def given (w : Answers) (a : Access α) : Except Error α := a.run.still w

theorem given_bind (a : Access α) (f : α → Access β) :
    (a >>= f).given w = a.given w >>= fun x => (f x).given w := by
  refine (still_bind w a.run _).trans ?_
  unfold given
  cases a.run.still w <;> rfl

theorem given_bind_ok {a : Access α} {x : α} (first : a.given w = .ok x) (f : α → Access β) :
    (a >>= f).given w = (f x).given w := by
  rw [given_bind, first]
  rfl

theorem given_bind_pure (a : Access α) (f : α → β) :
    (a >>= fun x => pure (f x)).given w = (a.given w).map f := by
  rw [given_bind]
  cases a.given w <;> rfl

theorem given_orElse (a : Access α) (default : α) :
    (a.orElse default).given w = .ok ((a.given w).toOption.getD default) := by
  refine (still_bind w a.run _).trans ?_
  unfold given
  cases a.run.still w <;> rfl

end Access

/-- Of every element it is known whether it is attached: one that cannot be asked is not. -/
theorem given_isAttached (w : Answers) (el : Handle) :
    (isAttached el).given w = .ok (Except.toOption (w (.isConnected el)) |>.getD false) :=
  Access.given_orElse (ask (.isConnected el)) false

end Page

end BrowserScript
