/-!
Programs as data. A program is done, or it asks its surroundings something and goes on with the
answer. A signature says what may be asked and what kind of answer it has; whoever runs a program
decides on the answers, and may let other programs act before giving one.
-/

namespace BrowserScript

structure Signature where
  Request : Type
  Answer : Request → Type

inductive Prog (S : Signature) (α : Type) : Type
  | done (a : α)
  | ask (r : S.Request) (next : S.Answer r → Prog S α)

/-- What may be asked of either of two surroundings. -/
def Signature.sum (S T : Signature) : Signature :=
  ⟨S.Request ⊕ T.Request, Sum.elim S.Answer T.Answer⟩

namespace Prog

variable {S T : Signature} {α β γ : Type}

def bind : Prog S α → (α → Prog S β) → Prog S β
  | .done a, f => f a
  | .ask r next, f => .ask r fun x => bind (next x) f

instance : Monad (Prog S) where
  pure := .done
  bind := bind

def request (r : S.Request) : Prog S (S.Answer r) := .ask r .done

/-- Run a program where every request is served at once. -/
def run {m : Type → Type} [Monad m] (serve : (r : S.Request) → m (S.Answer r)) : Prog S α → m α
  | .done a => pure a
  | .ask r next => serve r >>= fun x => run serve (next x)

theorem bind_done (p : Prog S α) : p.bind .done = p := by
  induction p with
  | done a => rfl
  | ask r next ih => exact congrArg (ask r) (funext ih)

theorem bind_assoc (p : Prog S α) (f : α → Prog S β) (g : β → Prog S γ) :
    (p.bind f).bind g = p.bind fun a => (f a).bind g := by
  induction p with
  | done a => rfl
  | ask r next ih => exact congrArg (ask r) (funext ih)

instance : LawfulMonad (Prog S) :=
  .mk' _ (fun p => bind_done p) (fun _ _ => rfl) bind_assoc

theorem run_bind {m : Type → Type} [Monad m] [LawfulMonad m]
    (serve : (r : S.Request) → m (S.Answer r)) (p : Prog S α) (f : α → Prog S β) :
    (p.bind f).run serve = p.run serve >>= fun a => (f a).run serve := by
  induction p with
  | done a => simp [bind, run]
  | ask r next ih => simp [bind, run, ih]

end Prog

/-- Everything that can be asked of the first surroundings can be asked of the second. -/
class Signature.Within (S T : Signature) where
  ask : (r : S.Request) → Prog T (S.Answer r)

namespace Signature.Within

variable {S T U : Signature}

instance refl : Within S S := ⟨Prog.request⟩

instance left [Within S T] : Within S (T.sum U) :=
  ⟨fun r => (ask (T := T) r).run fun q => Prog.request (S := T.sum U) (.inl q)⟩

instance right [Within S U] : Within S (T.sum U) :=
  ⟨fun r => (ask (T := U) r).run fun q => Prog.request (S := T.sum U) (.inr q)⟩

instance both [Within S U] [Within T U] : Within (S.sum T) U :=
  ⟨fun
    | .inl r => ask (S := S) r
    | .inr r => ask (S := T) r⟩

end Signature.Within

/-- The same program in surroundings that can be asked more. -/
def Prog.within {S T : Signature} [Signature.Within S T] (p : Prog S α) : Prog T α :=
  p.run Signature.Within.ask

instance {S T : Signature} [Signature.Within S T] : MonadLiftT (Prog S) (Prog T) := ⟨Prog.within⟩

instance {S T : Signature} [Signature.Within S T] :
    MonadLiftT (ExceptT ε (Prog S)) (ExceptT ε (Prog T)) := ⟨fun a => ExceptT.mk a.run.within⟩

/-- What a clock can be asked. Times are in milliseconds. -/
inductive Clock.Request
  | now
  | sleep (milliseconds : Nat)

def Clock.Request.Result : Clock.Request → Type
  | .now => Nat
  | .sleep _ => Unit

def clock : Signature := ⟨Clock.Request, Clock.Request.Result⟩

def sleep (milliseconds : Nat) : Prog clock Unit := Prog.request (S := clock) (.sleep milliseconds)

def currentTime : Prog clock Nat := Prog.request (S := clock) .now

end BrowserScript
