import BrowserScript.Run.Step
import Mathlib.Algebra.Order.Floor.Div

/-!
When elements are looked for. On a page that changes in time a search looks at fixed intervals and
ends with the first look that finds an element. Main statement: `polling`.
-/

namespace BrowserScript

open Page (Handle)

variable {σ α β : Type}

/-! ## Pages in time -/

/-- A page that changes with time and with what it is asked. -/
abbrev Page.Course (σ : Type) : Type :=
  Nat → (r : Page.signature.Request) → StateM σ (Page.signature.Answer r)

/-- Answers take no time. The state is what time it is, and that of the page. -/
def Page.Course.serve (page : Page.Course σ) :
    (r : Page.timed.Request) → StateM (Nat × σ) (Page.timed.Answer r)
  | .inl r => fun s => (((page s.1 r).run s.2).1, (s.1, ((page s.1 r).run s.2).2))
  | .inr .now => fun s => (s.1, s)
  | .inr (.sleep milliseconds) => fun s => ((), (s.1 + milliseconds, s.2))

/-- The surroundings of a run, whatever is answered for its state and by its followers. -/
def Run.serve (page : Page.Course σ)
    (others : (r : (Store.signature.sum Run.followers).Request) →
      StateM (Nat × σ) ((Store.signature.sum Run.followers).Answer r)) :
    (r : Run.surroundings.Request) → StateM (Nat × σ) (Run.surroundings.Answer r)
  | .inl r => page.serve r
  | .inr r => others r

/-! ## Looks -/

section Looks

variable (look : Nat → StateM σ (Option α)) (every start : Nat) (w : σ)

/-- The page after so many looks at fixed intervals, the first of them at the start. -/
def afterLooks : Nat → σ
  | 0 => w
  | k + 1 => ((look (start + k * every)).run (afterLooks k)).2

/-- What is seen after so many looks. -/
def seenAfter (k : Nat) : Option α :=
  ((look (start + k * every)).run (afterLooks look every start w k)).1

/-- It looks at fixed intervals and ends with the first look that finds something. After so many
looks in vain it ends with nothing, when so much time is over. -/
structure Polls (search : StateM (Nat × σ) (Option α)) (looks spent : Nat) : Prop where
  hit : ∀ k < looks, (∀ j < k, seenAfter look every start w j = none) →
    ∀ a, seenAfter look every start w k = some a →
      search.run (start, w) =
        (some a, (start + k * every, afterLooks look every start w (k + 1)))
  miss : (∀ j < looks, seenAfter look every start w j = none) →
    search.run (start, w) = (none, (start + spent, afterLooks look every start w looks))

/-- Rounds of one look, and a pause if it was in vain. -/
structure Repeats (round : Nat → StateM (Nat × σ) (Option α)) : Prop where
  found : ∀ n now w a, ((look now).run w).1 = some a →
    (round (n + 1)).run (now, w) = (some a, (now, ((look now).run w).2))
  missed : ∀ n now w, ((look now).run w).1 = none →
    (round (n + 1)).run (now, w) = (round n).run (now + every, ((look now).run w).2)

end Looks

section Repeats

variable {look : Nat → StateM σ (Option α)} {every start : Nat} {w : σ}
  {round : Nat → StateM (Nat × σ) (Option α)}

/-- After looks in vain the rounds that are left begin as much later. -/
theorem Repeats.after (repeats : Repeats look every round) (n k : Nat)
    (vain : ∀ j < k, seenAfter look every start w j = none) :
    (round (n + k)).run (start, w) =
      (round n).run (start + k * every, afterLooks look every start w k) := by
  induction k generalizing n with
  | zero => rw [Nat.zero_mul]; rfl
  | succ k ih =>
      have before := ih (n + 1) fun j less => vain j (Nat.lt_succ_of_lt less)
      rw [Nat.add_right_comm n 1 k] at before
      rw [← Nat.add_assoc, before, repeats.missed n _ _ (vain k (Nat.lt_succ_self k)),
        Nat.add_one_mul, Nat.add_assoc]
      rfl

theorem Repeats.hit (repeats : Repeats look every round) {n k : Nat} (less : k < n)
    (vain : ∀ j < k, seenAfter look every start w j = none) {a : α}
    (finds : seenAfter look every start w k = some a) :
    (round n).run (start, w) =
      (some a, (start + k * every, afterLooks look every start w (k + 1))) := by
  obtain ⟨left, rfl⟩ := Nat.exists_eq_add_of_lt less
  have rounds : k + left + 1 = left + 1 + k := by omega
  rw [rounds, repeats.after (left + 1) k vain, repeats.found left _ _ a finds]
  rfl

theorem Repeats.polls (repeats : Repeats look every round)
    (ends : ∀ s, (round 0).run s = (none, s)) (n : Nat) :
    Polls look every start w (round n) n (n * every) where
  hit k less vain a finds := repeats.hit less vain finds
  miss vain := by
    have all := repeats.after 0 n vain
    rwa [Nat.zero_add, ends] at all

/-- Rounds that end with a last look, with no pause after it. -/
theorem Repeats.polls_last (repeats : Repeats look every round)
    (last : ∀ now w, (round 0).run (now, w) =
      (((look now).run w).1, (now, ((look now).run w).2))) (n : Nat) :
    Polls look every start w (round n) (n + 1) (n * every) where
  hit k less vain a finds := by
    obtain before | rfl := Nat.lt_or_eq_of_le (Nat.le_of_lt_succ less)
    · exact repeats.hit before vain finds
    · have all := repeats.after 0 k vain
      rw [Nat.zero_add, last] at all
      rw [all, ← finds]
      rfl
  miss vain := by
    have all := repeats.after 0 n fun j less => vain j (Nat.lt_succ_of_lt less)
    rw [Nat.zero_add, last] at all
    rw [all, ← vain n (Nat.lt_succ_self n)]
    rfl

/-- A single look. -/
theorem polls_once {search : StateM (Nat × σ) (Option α)}
    (one : ∀ now w, search.run (now, w) =
      (((look now).run w).1, (now, ((look now).run w).2))) :
    Polls look every start w search 1 0 where
  hit k less vain a finds := by
    obtain rfl := Nat.lt_one_iff.mp less
    rw [one, ← finds, afterLooks, seenAfter, Nat.zero_mul]
    rfl
  miss vain := by
    have none := vain 0 Nat.one_pos
    rw [one, ← none, afterLooks, seenAfter, Nat.zero_mul]
    rfl

end Repeats

/-! ## Programs in time -/

section Programs

variable (page : Page.Course σ)
  (others : (r : (Store.signature.sum Run.followers).Request) →
    StateM (Nat × σ) ((Store.signature.sum Run.followers).Answer r))
  (now : Nat) (w : σ)

/-- The state after a program that asks the page only. -/
def Page.Course.after (p : Prog Page.signature α) : α × Nat × σ :=
  (((p.run (page now)).run w).1, (now, ((p.run (page now)).run w).2))

theorem run_timed_bind (p : Prog Page.signature α) (f : α → Prog Page.timed β) :
    (((liftM p : Prog Page.timed α).bind f).run page.serve).run (now, w) =
      ((f (page.after now w p).1).run page.serve).run (page.after now w p).2 := by
  induction p generalizing w with
  | done a => rfl
  | ask r next ih => exact ih ((page now r).run w).1 ((page now r).run w).2

theorem run_onPage_bind (p : Prog Page.signature α) (f : α → Prog Run.surroundings β) :
    (((Run.onPage p).bind f).run (Run.serve page others)).run (now, w) =
      ((f (page.after now w p).1).run (Run.serve page others)).run (page.after now w p).2 := by
  induction p generalizing w with
  | done a => rfl
  | ask r next ih => exact ih ((page now r).run w).1 ((page now r).run w).2

end Programs

namespace Locator

/-! ## Attempts -/

variable (page : Page.Course σ)

/-- What a lookup comes to at a time. A page that could not answer is the same as one without the
element. -/
def foundAt (lookup : Page.Access (Option Handle)) (now : Nat) : StateM σ (Option Handle) := do
  let result ← lookup.result.run (page now)
  return result.toOption.join

theorem foundAt_eq (lookup : Page.Access (Option Handle)) (now : Nat) :
    foundAt page lookup now = (found lookup).run (page now) := by
  rw [found, Prog.run_bind]
  refine congrArg (lookup.result.run (page now) >>= ·) (funext fun result => ?_)
  cases result <;> rfl

theorem repeats_findWithin (description : String) (delay : Nat) :
    Repeats (foundAt page (attempt description)) delay
      fun n => (findWithin description delay n).run page.serve where
  found n now w el finds := by
    rw [foundAt_eq] at finds ⊢
    refine (run_timed_bind page now w (found (attempt description)) _).trans ?_
    rw [Page.Course.after, finds]
    rfl
  missed n now w vain := by
    rw [foundAt_eq] at vain ⊢
    refine (run_timed_bind page now w (found (attempt description)) _).trans ?_
    rw [Page.Course.after, vain]
    generalize ((found (attempt description)).run (page now)).run w = x
    rfl

theorem polls_find (patience : Patience) (description : String) (start : Nat) (w : σ) :
    Polls (foundAt page (attempt (bare description))) patience.delay start w
      ((find patience description).run page.serve) (max patience.retries 1)
      (patience.retries * patience.delay) := by
  unfold find
  split
  · next none =>
      rw [none, Nat.zero_mul]
      refine polls_once fun now w => ?_
      rw [foundAt_eq]
      generalize found (attempt (bare description)) = once
      have one := run_timed_bind page now w once .done
      rwa [Prog.bind_done] at one
  · next some =>
      rw [Nat.max_eq_left (Nat.pos_of_ne_zero some)]
      have ends (s : Nat × σ) :
          ((findWithin (bare description) patience.delay 0).run page.serve).run s = (none, s) := rfl
      exact (repeats_findWithin page (bare description) patience.delay).polls ends patience.retries

end Locator

namespace Run

/-! ## Steps -/

variable (page : Page.Course σ)
  (others : (r : (Store.signature.sum followers).Request) →
    StateM (Nat × σ) ((Store.signature.sum followers).Answer r))
  (s : Settings) (c : Command) (locator : String)

/-- A lookup that does not wait: below the heading of the command, on the whole page, and by the
description. -/
def glance : Prog Page.signature (Option Handle) := do
  if let some heading := c.header then
    if let some el ← Locator.findUnderHeading heading locator s.headingDepth then return some el
  if let some el ← Locator.found (Locator.attempt (Locator.bare locator)) then return some el
  Locator.findDescribed locator

theorem onPage_bind (p : Prog Page.signature α) (f : α → Prog Page.signature β) :
    onPage (p >>= f) = onPage p >>= fun a => onPage (f a) := Prog.run_bind _ p f

theorem liftM_onPage (p : Prog Page.signature α) :
    (liftM (liftM p : Prog Page.timed α) : Prog surroundings α) = onPage p := by
  induction p with
  | done a => rfl
  | ask r next ih => exact congrArg (Prog.ask (S := surroundings) (.inl (.inl r))) (funext ih)

theorem lookup_once : lookup s .once c locator = onPage (glance s c locator) := by
  have once : (liftM (Locator.find .once locator) : Prog surroundings (Option Handle)) =
      onPage (Locator.found (Locator.attempt (Locator.bare locator))) := liftM_onPage _
  have elsewhere : lookup s .once { c with header := none } locator =
      onPage (glance s { c with header := none } locator) := by
    unfold lookup glance
    dsimp only
    rw [once, onPage_bind]
    refine bind_congr fun el => ?_
    cases el <;> rfl
  unfold lookup glance at elsewhere ⊢
  cases c.header with
  | none => exact elsewhere
  | some heading =>
      dsimp only at elsewhere ⊢
      rw [onPage_bind]
      refine bind_congr fun el => ?_
      cases el with
      | some el => rfl
      | none => exact elsewhere

/-- Look at once, and again so many times after a pause. -/
def lookAgain : Nat → Prog surroundings (Option Handle)
  | 0 => onPage (glance s c locator)
  | times + 1 => do
    if let some el ← onPage (glance s c locator) then return some el
    pause (pollOf s)
    lookAgain times

theorem ceilDiv_sub {p n : Nat} (positive : 0 < p) (left : n ≠ 0) :
    n ⌈/⌉ p = (n - p) ⌈/⌉ p + 1 := by
  refine eq_of_forall_ge_iff fun k => ?_
  rw [ceilDiv_le_iff_le_mul positive]
  cases k with
  | zero => exact iff_of_false (fun le => left (Nat.le_zero.mp le)) (Nat.not_succ_le_zero _)
  | succ k =>
      rw [Nat.succ_le_succ_iff, ceilDiv_le_iff_le_mul positive, Nat.sub_le_iff_le_add,
        Nat.mul_succ]

/-- Counting the time down is the same as so many pauses. -/
theorem lookWhile_eq (remaining : Nat) :
    lookWhile s c locator remaining = lookAgain s c locator (remaining ⌈/⌉ pollOf s) := by
  induction remaining using lookWhile.induct s with
  | case1 remaining ih =>
      rw [lookWhile, lookup_once]
      by_cases ended : remaining = 0
      · rw [ended, zero_ceilDiv]
        refine Eq.trans (bind_congr fun el => ?_) (bind_pure _)
        cases el <;> rfl
      · rw [ceilDiv_sub (pollOf_pos s) ended, lookAgain, ← ih ended]
        refine bind_congr fun el => ?_
        cases el with
        | some el => rfl
        | none => exact if_neg ended

theorem repeats_lookAgain : Repeats (fun now => (glance s c locator).run (page now)) (pollOf s)
    fun n => (lookAgain s c locator n).run (serve page others) where
  found n now w el finds := by
    refine (run_onPage_bind page others now w (glance s c locator) _).trans ?_
    rw [Page.Course.after, finds]
    rfl
  missed n now w vain := by
    refine (run_onPage_bind page others now w (glance s c locator) _).trans ?_
    rw [Page.Course.after, vain]
    generalize ((glance s c locator).run (page now)).run w = x
    rfl

theorem polls_resolve (skips : skips s) (start : Nat) (w : σ) :
    Polls (fun now => (glance s c locator).run (page now)) (pollOf s) start w
      ((resolve s c locator).run (serve page others)) (c.timeout ⌈/⌉ pollOf s + 1)
      (c.timeout ⌈/⌉ pollOf s * pollOf s) := by
  rw [resolve, if_pos skips, lookWhile_eq]
  refine (repeats_lookAgain page others s c locator).polls_last (fun now w => ?_) _
  have one := run_onPage_bind page others now w (glance s c locator) .done
  rwa [Prog.bind_done] at one

end Run

/-! ## Counters -/

/-- A number below another has a next one. -/
theorem toNat_next {number last : UInt32} (less : number < last) :
    (number + 1).toNat = number.toNat + 1 := by
  have below := UInt32.lt_iff_toNat_lt.mp less
  have bound := last.toNat_lt
  rw [UInt32.toNat_add, UInt32.toNat_one]
  omega

/-- The attempts of a search, counted from one up to the last in a word of 32 bits. -/
def Locator.findCounting (description : String) (delay : Nat) (retries last number : UInt32) :
    Prog Page.timed (Option Handle) := do
  if let some el ← found (attempt description) then return some el
  if 0 < retries then sleep delay
  if number < last then findCounting description delay retries last (number + 1) else return none
termination_by last.toNat - number.toNat
decreasing_by
  have less := UInt32.lt_iff_toNat_lt.mp ‹number < last›
  rw [toNat_next ‹number < last›]
  omega

/-- What is left of a time, nothing if it is over. -/
def remainder (time spent : UInt64) : UInt64 := if time < spent then 0 else time - spent

theorem toNat_remainder (time spent : UInt64) :
    (remainder time spent).toNat = time.toNat - spent.toNat := by
  rw [remainder]
  split
  · next less =>
      rw [Nat.sub_eq_zero_of_le (Nat.le_of_lt (UInt64.lt_iff_toNat_lt.mp less))]
      rfl
  · next le => exact UInt64.toNat_sub_of_le _ _ (UInt64.not_lt.mp le)

/-- Looks as long as there is time left, which is counted down to none in a word of 64 bits. -/
def Run.lookCounting (s : Settings) (c : Command) (locator : String) (poll remaining : UInt64) :
    Prog surroundings (Option Handle) := do
  if let some el ← lookup s .once c locator then return some el
  if remaining = 0 then return none
  pause (max poll 1).toNat
  lookCounting s c locator poll (remainder remaining (max poll 1))
termination_by remaining.toNat
decreasing_by
  have left : remaining.toNat ≠ 0 := fun ended => ‹¬ remaining = 0› (UInt64.toNat_inj.mp ended)
  rw [toNat_remainder, UInt64.toNat_max, UInt64.toNat_one]
  omega

theorem Locator.findCounting_eq (description : String) (delay : Nat) {retries : UInt32}
    (some : 0 < retries) {last number : UInt32} {left : Nat}
    (counted : number.toNat + left = last.toNat) :
    findCounting description delay retries last number =
      findWithin description delay (left + 1) := by
  induction left generalizing number with
  | zero =>
      have last : ¬ number < last := fun less =>
        Nat.ne_of_lt (UInt32.lt_iff_toNat_lt.mp less) counted
      rw [findCounting, findWithin]
      refine bind_congr fun el => ?_
      cases el with
      | some el => rfl
      | none =>
          dsimp only
          rw [if_pos some, if_neg last]
          rfl
  | succ left ih =>
      have less : number < last := UInt32.lt_iff_toNat_lt.mpr (by omega)
      have next := @ih (number + 1) (by rw [toNat_next less]; omega)
      rw [findCounting, findWithin]
      refine bind_congr fun el => ?_
      cases el with
      | some el => rfl
      | none =>
          dsimp only
          rw [if_pos some, if_pos less, next]

theorem Locator.find_eq_counting (retries : UInt32) (delay : Nat) (description : String) :
    find ⟨retries.toNat, delay⟩ description =
      findCounting (bare description) delay retries (max retries 1) 1 := by
  obtain rfl | some := eq_or_ne retries 0
  · have one : max (0 : UInt32) 1 = 1 := rfl
    have once : find ⟨(0 : UInt32).toNat, delay⟩ description =
        liftM (found (attempt (bare description))) := rfl
    rw [once, one, findCounting]
    refine (bind_pure _).symm.trans (bind_congr fun el => ?_)
    cases el <;> rfl
  · have positive : 0 < retries := UInt32.pos_iff_ne_zero.mpr some
    have least : 0 < retries.toNat := UInt32.lt_iff_toNat_lt.mp positive
    have last : (1 : UInt32).toNat + (retries.toNat - 1) = (max retries 1).toNat := by
      rw [UInt32.toNat_max, UInt32.toNat_one]
      omega
    have all := findCounting_eq (bare description) delay positive last
    rw [Nat.sub_add_cancel least] at all
    exact (if_neg (Nat.ne_of_gt least)).trans all.symm

theorem Run.lookWhile_eq_counting (s : Settings) (c : Command) (locator : String) {poll : UInt64}
    (same : pollOf s = (max poll 1).toNat) (remaining : UInt64) :
    lookWhile s c locator remaining.toNat = lookCounting s c locator poll remaining := by
  induction remaining using lookCounting.induct poll with
  | case1 remaining ih =>
      rw [lookWhile, lookCounting]
      refine bind_congr fun el => ?_
      cases el with
      | some el => rfl
      | none =>
          dsimp only
          by_cases ended : remaining = 0
          · rw [if_pos ended, ended]
            rfl
          · have left : remaining.toNat ≠ 0 := fun none => ended (UInt64.toNat_inj.mp none)
            rw [if_neg ended, if_neg left, same, ← toNat_remainder, ih ended]

/-- A search looks at the start and after each delay, as often as there are retries and once at
least; it ends with the first look that finds an element, or with none when all delays are over. A
page that could not answer is the same as one without the element. Where missing elements are
skipped a step looks at once, and after each pause until the timeout is over. Counted in words the
searches are the same. -/
theorem polling (page : Page.Course σ)
    (others : (r : (Store.signature.sum Run.followers).Request) →
      StateM (Nat × σ) ((Store.signature.sum Run.followers).Answer r)) :
    (∀ (patience : Locator.Patience) (description : String) (start : Nat) (w : σ),
      Polls (Locator.foundAt page (Locator.attempt (Locator.bare description))) patience.delay start
        w ((Locator.find patience description).run page.serve) (max patience.retries 1)
        (patience.retries * patience.delay)) ∧
    (∀ (s : Settings) (c : Command) (locator : String) (start : Nat) (w : σ), Run.skips s →
      Polls (fun now => (Run.glance s c locator).run (page now)) (max s.stepping.skipPoll 1) start w
        ((Run.resolve s c locator).run (Run.serve page others))
        (c.timeout ⌈/⌉ max s.stepping.skipPoll 1 + 1)
        (c.timeout ⌈/⌉ max s.stepping.skipPoll 1 * max s.stepping.skipPoll 1)) ∧
    (∀ (s : Settings) (c : Command) (locator : String),
      Run.lookup s .once c locator = Run.onPage (Run.glance s c locator)) ∧
    (∀ (retries : UInt32) (delay : Nat) (description : String),
      Locator.find ⟨retries.toNat, delay⟩ description =
        Locator.findCounting (Locator.bare description) delay retries (max retries 1) 1) ∧
    ∀ (s : Settings) (c : Command) (locator : String) (poll timeout : UInt64), Run.skips s →
      s.stepping.skipPoll = poll.toNat → c.timeout = timeout.toNat →
        Run.resolve s c locator = Run.lookCounting s c locator poll timeout := by
  refine ⟨Locator.polls_find page, fun s c locator start w skips =>
    Run.polls_resolve page others s c locator skips start w, Run.lookup_once,
    Locator.find_eq_counting, ?_⟩
  intro s c locator poll timeout skips same limit
  have every : Run.pollOf s = (max poll 1).toNat := by
    rw [Run.pollOf, same, UInt64.toNat_max, UInt64.toNat_one]
  rw [Run.resolve, if_pos skips, limit]
  exact Run.lookWhile_eq_counting s c locator every timeout

/-- A page with one element, which is there from a time on. -/
def appearing (since : Nat) : Page.Course Unit := fun now r =>
  pure (match r with
    | .first _ => .ok (if since ≤ now then some ⟨1⟩ else none)
    | .all _ | .xpath .. => .ok []
    | _ => .error (.backend ""))

def silent : (r : (Store.signature.sum Run.followers).Request) →
    StateM (Nat × Unit) ((Store.signature.sum Run.followers).Answer r)
  | .inl _ => pure (.error default)
  | .inr _ => pure ()

/-- The element comes after 250 ms. It is looked for every 100 ms: up to five times, twice, and for
250 ms, where the last look is later than that. -/
theorem polling_appearing :
    ((Locator.find ⟨5, 100⟩ "#a").run (appearing 250).serve).run (0, ()) =
      (some ⟨1⟩, (300, ())) ∧
    ((Locator.find ⟨2, 100⟩ "#a").run (appearing 250).serve).run (0, ()) = (none, (200, ())) ∧
    ((Run.resolve { stepping := { missing := .skip } }
        { line := 0, code := [], src := "", timeout := 250 } "#a").run
      (Run.serve (appearing 250) silent)).run (0, ()) = (some ⟨1⟩, (300, ())) := by
  obtain ⟨finds, resolves, -⟩ := polling (appearing 250) silent
  refine ⟨?five, ?two, ?skipped⟩
  case five =>
    exact (finds ⟨5, 100⟩ "#a" 0 ()).hit 3 (by decide) (by decide +kernel) ⟨1⟩ (by decide +kernel)
  case two => exact (finds ⟨2, 100⟩ "#a" 0 ()).miss (by decide +kernel)
  case skipped =>
    exact (resolves _ _ "#a" 0 () rfl).hit 3 (by decide) (by decide +kernel) ⟨1⟩
      (by decide +kernel)

end BrowserScript
