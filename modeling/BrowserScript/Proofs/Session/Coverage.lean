import BrowserScript.Proofs.Script.Statement
import BrowserScript.Proofs.Session.Summary

/-!
Which statements of a script a usability test comes to look at. One that is on the board already
is not put there again, and one that is settled there is not looked at again: what was settled
before the test begins is left out of it, unless its statements are attached anew.
-/

namespace BrowserScript.Session

open Prog
open Verification (Outcome)
open Run (Verdict)
open Usability (Task Test Report notYetMet)
open Board (Entry Status)

variable {d d' : Desk} {h : List Moment} {m : Moment} {key : String} {e : Entry} {s : Settings}
  {tree : List Block} {c : Command} {T : Test}

/-! ## Open and settled statements -/

/-- No statement with this key is settled. -/
def Unsettled (key : String) (d : Desk) : Prop :=
  ∀ e, d.board.entry? key = some e → e.status.isFinal = false

def Present (key : String) (d : Desk) : Prop := ∃ e, d.board.entry? key = some e

theorem Fate.unsettled {old new : Option Entry} (fate : Fate m key old new)
    (here : m.desk.board.entry? key = old) (silent : m.verdictOn? key = none)
    (so : ∀ e, old = some e → e.status.isFinal = false) :
    ∀ e, new = some e → e.status.isFinal = false := by
  intro e there
  cases fate with
  | claimed c =>
      cases there
      rfl
  | settled found old settling =>
      obtain ⟨e₀, rfl, rfl⟩ := Option.map_eq_some_iff.mp there
      rw [verdictOn?_of_settling_it settling, here] at silent
      simp [Option.filter, so e₀ rfl] at silent
  | activated probe old =>
      obtain ⟨e₀, rfl, rfl⟩ := Option.map_eq_some_iff.mp there
      rw [e₀.activated_isFinal]
      exact so e₀ rfl
  | forgotten => cases there
  | left old => exact so e there

/-- What is open stays open as long as there is no verdict. -/
theorem Passes.unsettled (p : Passes d h d') (silent : ∀ m ∈ h, m.verdictOn? key = none)
    (so : Unsettled key d) : Unsettled key d' := by
  induction p with
  | nil => exact so
  | @cons d d₁ d' ev h who takes rest ih =>
      refine ih (fun m mem => silent m (List.mem_cons_of_mem _ mem)) ?_
      exact (takes.fate who key).unsettled rfl (silent _ (List.mem_cons_self ..)) so

theorem verdictOn?_of_shut (shut : Shut key m.desk) : m.verdictOn? key = none := by
  cases settling : settling? m.event.1 with
  | none => exact verdictOn?_of_silent (verdict?_of_other settling)
  | some about =>
      obtain ⟨name, found⟩ := about
      by_cases same : key = name
      · subst same
        rw [verdictOn?_of_settling_it settling]
        cases there : m.desk.board.entry? key with
        | none => rfl
        | some e => simp [Option.filter, shut e there]
      · exact verdictOn?_of_settling settling same

theorem Passes.silent_of_shut (p : Passes d h d') (shut : Shut key d)
    (unclaimed : ∀ m ∈ h, claimed? m.event ≠ some key) : ∀ m ∈ h, m.verdictOn? key = none := by
  rintro ⟨who, d₁, ev⟩ mem
  obtain ⟨h₁, h₂, rfl⟩ := List.append_of_mem mem
  obtain ⟨first, -⟩ := p.split
  refine verdictOn?_of_shut (first.shut ?_ (.inl shut))
  intro m' mem'
  exact unclaimed m' (List.mem_append_left _ mem')

theorem isFinal_of_leads {s t : Status} (leads : s.Leads t) (final : s.isFinal) : t.isFinal := by
  cases leads with
  | stay => exact final
  | activate => cases final
  | settle _ final' => exact final'

theorem Passes.silent_of_settled (p : Passes d h d')
    (kept : ∀ m ∈ h, m.event.1 ≠ toDesk .forgetStatements) (there : d.board.entry? key = some e)
    (final : e.status.isFinal) : ∀ m ∈ h, m.verdictOn? key = none := by
  rintro ⟨who, d₁, ev⟩ mem
  obtain ⟨h₁, h₂, rfl⟩ := List.append_of_mem mem
  obtain ⟨first, -⟩ := p.split
  have keptFirst : ∀ m ∈ h₁, m.event.1 ≠ toDesk .forgetStatements := by
    intro m' mem'
    exact kept m' (List.mem_append_left _ mem')
  obtain ⟨e', there', -, leads⟩ := status_leads first keptFirst there
  refine verdictOn?_of_shut fun e'' here => ?_
  cases there'.symm.trans here
  exact isFinal_of_leads leads final

theorem Passes.present (p : Passes d h d')
    (kept : ∀ m ∈ h, m.event.1 ≠ toDesk .forgetStatements) (present : Present key d) :
    Present key d' := by
  obtain ⟨e, there⟩ := present
  obtain ⟨e', there', -⟩ := status_leads p kept there
  exact ⟨e', there'⟩

/-! ## Sources -/

theorem source_of_key {t u : Subject} {x y : String}
    (same : t.word ++ ":" ++ x = u.word ++ ":" ++ y) : x = y := by
  have fromColon (t : Subject) (x : String) :
      (t.word ++ ":" ++ x).toList.dropWhile (· != ':') = ':' :: x.toList := by
    cases t <;> simp [Subject.word]
  have eq := congrArg (fun k : String => k.toList.dropWhile (· != ':')) same
  simp only [fromColon, List.cons.injEq, true_and] at eq
  exact String.toList_inj.mp eq

theorem kind_of_key (known : Board.key? c = some key) :
    ∃ t : Subject, key = t.word ++ ":" ++ c.src := by
  unfold Board.key? at known
  split at known
  · cases known
  · obtain ⟨t, -, eq⟩ := Option.map_eq_some_iff.mp known
    exact ⟨t, eq.symm⟩

/-- The statements are named by their kinds and sources. -/
def Named (d : Desk) : Prop :=
  ∀ key e, d.board.entry? key = some e → ∃ t : Subject, key = t.word ++ ":" ++ e.source

theorem Fate.named {old new : Option Entry} (fate : Fate m key old new)
    (so : ∀ e, old = some e → ∃ t : Subject, key = t.word ++ ":" ++ e.source) :
    ∀ e, new = some e → ∃ t : Subject, key = t.word ++ ":" ++ e.source := by
  intro e there
  cases fate with
  | claimed c _ _ known =>
      cases there
      exact kind_of_key known
  | settled found old =>
      obtain ⟨e₀, rfl, rfl⟩ := Option.map_eq_some_iff.mp there
      rw [e₀.settled_source]
      exact so e₀ rfl
  | activated probe old =>
      obtain ⟨e₀, rfl, rfl⟩ := Option.map_eq_some_iff.mp there
      rw [e₀.activated_source]
      exact so e₀ rfl
  | forgotten => cases there
  | left old => exact so e there

theorem Passes.named (p : Passes d h d') (named : Named d) :
    Named d' ∧ ∀ m ∈ h, Named m.desk := by
  induction p with
  | nil d => exact ⟨named, by simp⟩
  | cons who takes rest ih =>
      obtain ⟨last, all⟩ := ih fun key => (takes.fate who key).named (named key)
      exact ⟨last, List.forall_mem_cons.mpr ⟨named, all⟩⟩

theorem named_new : Named {} := by
  intro key e there
  cases there

/-- A verdict on a statement names its source. -/
theorem source_of_verdict {v : Verdict} (named : Named m.desk)
    (verdict : m.verdictOn? key = some v) : ∃ t : Subject, key = t.word ++ ":" ++ v.source := by
  cases settling : settling? m.event.1 with
  | none => cases (verdictOn?_of_silent (verdict?_of_other settling)).symm.trans verdict
  | some about =>
      obtain ⟨name, found⟩ := about
      by_cases same : key = name
      · subst same
        rw [verdictOn?_of_settling_it settling] at verdict
        obtain ⟨e, opened, rfl⟩ := Option.map_eq_some_iff.mp verdict
        exact named key e (Option.filter_eq_some_iff.mp opened).1
      · cases (verdictOn?_of_settling settling same).symm.trans verdict

/-! ## Statements are put on the board -/

theorem Takes.present_of_claim {x : Option String} (takes : Takes d ⟨toDesk (.claim c), x⟩ d')
    (known : Board.key? c = some key) : Present key d' := by
  obtain ⟨-, rfl⟩ := Prod.mk.inj takes.served
  show ∃ e, Board.entry? (d.board.claim c).2 key = some e
  rw [Board.lookup_claim]
  by_cases claimed : (d.board.claim c).1 = some key
  · exact ⟨_, if_pos claimed⟩
  · rw [if_neg claimed]
    rw [Board.claim_eq_some_iff, not_and] at claimed
    exact Option.ne_none_iff_exists'.mp (claimed known)

theorem install_keeps_statements {t : List surroundings.Event} (ran : Ran (install tree) t ()) :
    ∀ ev ∈ t, ev.1 ≠ toDesk .forgetStatements :=
  ran.asked (P := (· ≠ toDesk .forgetStatements))
    (install_asks (fun c => by rintro ⟨⟩) (fun jobs => by rintro ⟨⟩) tree)

theorem install_presents (p : Passes d h d') (backed : Backed h)
    (ran : Ran (install tree) (own 0 h) ()) (there : c ∈ Block.preorderAll tree)
    (verify : c.isVerify) (known : Board.key? c = some key) : Present key d' := by
  have kept := backed.all (P := (· ≠ toDesk .forgetStatements))
    (fun r => Mild.ne_forgetStatements) (install_keeps_statements ran)
  obtain ⟨x, mem⟩ := ran_install ran there verify
  obtain ⟨⟨who, d₁, ev⟩, mem, rfl⟩ := mem_of_mem_own mem
  obtain ⟨h₁, h₂, rfl⟩ := List.append_of_mem mem
  obtain ⟨-, d₂, takes, rest⟩ := p.split
  refine rest.present ?_ (takes.present_of_claim known)
  intro m mem
  exact kept m (List.mem_append_right _ (List.mem_cons_of_mem _ mem))

theorem Passes.test_answer {x : Option Test} (p : Passes d h d')
    (running : ∀ m ∈ h, m.desk.test = some T)
    (mine : (⟨toDesk .test, x⟩ : surroundings.Event) ∈ own 0 h) : x = some T := by
  obtain ⟨⟨who, d₁, ev⟩, mem, rfl⟩ := mem_of_mem_own mine
  obtain ⟨d₂, takes⟩ := p.takes mem
  exact (congrArg Prod.fst takes.served).symm.trans (running _ mem)

/-- Where statements are attached anew, all are forgotten first. -/
theorem reattach_split {r : Except Error Unit} (p : Passes d h d')
    (running : ∀ m ∈ h, m.desk.test = some T) (ran : Ran reattach.run (own 0 h) r) :
    ∃ h₁ d₁ h₂, h = h₁ ++ ⟨0, d₁, ⟨toDesk .forgetStatements, ()⟩⟩ :: h₂ ∧
      Ran (install T.tree) (own 0 h₂) () := by
  obtain eq | ⟨test, u, eq, installed⟩ := ran_reattach ran
  · cases p.test_answer running (x := none) (by simp [eq])
  · cases p.test_answer running (x := some test) (by simp [eq])
    obtain ⟨h₁, d₁, h₂, rfl, -, rfl⟩ := own_split (s := [_, _]) eq
    exact ⟨h₁, d₁, h₂, rfl, installed⟩

/-- What is on the board is there after each operation of a test under way. -/
theorem Act.presents {a : Act} (p : Passes d a.moments d') (backed : Backed a.moments)
    (front : Ran (a.operation.program s) (own 0 a.moments) a.result)
    (going : a.operation ≠ .finish) (running : ∀ m ∈ a.moments, m.desk.test = some T)
    (there : c ∈ Block.preorderAll T.tree) (verify : c.isVerify)
    (known : Board.key? c = some key) (present : Present key d) : Present key d' := by
  obtain ⟨o, x, h⟩ := a
  by_cases anew : o = .reattach
  · subst anew
    obtain ⟨h₁, d₁, h₂, rfl, installed⟩ := reattach_split p running front
    obtain ⟨-, d₂, -, rest⟩ := p.split
    exact install_presents rest (backed.of_append.2.of_append (h := [_]).2) installed there verify
      known
  · have kept := backed.all (P := (· ≠ toDesk .forgetStatements))
      (fun r => Mild.ne_forgetStatements)
      fun ev mem => (front.asked (program_asks s o) ev mem).ne_forgetStatements going anew
    exact p.present kept present

theorem present_after {middle : List Act} (p : Passes d (moments middle) d')
    (backed : Backed (moments middle))
    (front : ∀ a ∈ middle, Ran (a.operation.program s) (own 0 a.moments) a.result)
    (going : ∀ a ∈ middle, a.operation ≠ .finish)
    (running : ∀ m ∈ moments middle, m.desk.test = some T)
    (there : c ∈ Block.preorderAll T.tree) (verify : c.isVerify)
    (known : Board.key? c = some key) (present : Present key d) : Present key d' := by
  induction middle generalizing d with
  | nil =>
      cases p
      exact present
  | cons a rest ih =>
      rw [moments_cons] at p backed running
      obtain ⟨d₁, first, last⟩ := passes_append_iff.mp p
      obtain ⟨runningFirst, runningRest⟩ := List.forall_mem_append.mp running
      refine ih last backed.of_append.2 (fun a mem => front a (List.mem_cons_of_mem _ mem))
        (fun a mem => going a (List.mem_cons_of_mem _ mem)) runningRest ?_
      exact Act.presents first backed.of_append.1 (front a (List.mem_cons_self ..))
        (going a (List.mem_cons_self ..)) runningFirst there verify known present

theorem reattach_forgets {middle : List Act} (p : Passes d (moments middle) d')
    (front : ∀ a ∈ middle, Ran (a.operation.program s) (own 0 a.moments) a.result)
    (running : ∀ m ∈ moments middle, m.desk.test = some T) {a : Act} (there : a ∈ middle)
    (anew : a.operation = .reattach) :
    ∃ h₁ d₁ h₂, moments middle = h₁ ++ ⟨0, d₁, ⟨toDesk .forgetStatements, ()⟩⟩ :: h₂ := by
  obtain ⟨before, after, rfl⟩ := List.append_of_mem there
  rw [moments_append, moments_cons] at p running ⊢
  obtain ⟨d₁, -, p⟩ := passes_append_iff.mp p
  obtain ⟨d₂, p, -⟩ := passes_append_iff.mp p
  obtain ⟨-, running⟩ := List.forall_mem_append.mp running
  obtain ⟨running, -⟩ := List.forall_mem_append.mp running
  have ran := front a there
  obtain ⟨o, x, h⟩ := a
  cases anew
  obtain ⟨h₁, d₁, h₂, rfl, -⟩ := reattach_split p running ran
  exact ⟨moments before ++ h₁, d₁, h₂ ++ moments after, by simp⟩

theorem forgotten {x : Unit} (takes : Takes d ⟨toDesk .forgetStatements, x⟩ d') (key : String) :
    d'.board.entry? key = none := by
  obtain ⟨-, rfl⟩ := Prod.mk.inj takes.served
  rfl

/-! ## The end of the test -/

theorem Flushing.unclaimed {r : surroundings.Request} (flushing : Flushing r)
    (x : surroundings.Answer r) : claimed? ⟨r, x⟩ = none := by
  cases flushing <;> rfl

/-- The statements are forgotten once, and none of them is open then. -/
theorem flush_split {n : Nat} (p : Passes d h d') (backed : Backed h)
    (ran : Ran flush (own 0 h) n) :
    ∃ during dₑ rest, h = during ++ ⟨0, dₑ, ⟨toDesk .forgetStatements, ()⟩⟩ :: rest ∧
      (∀ m ∈ during, m.event.1 ≠ toDesk .forgetStatements) ∧ (∀ key, Shut key dₑ) ∧
      ∀ m ∈ rest, claimed? m.event = none := by
  obtain ⟨probes, looks, eq, flushed⟩ := ran_flush ran
  obtain ⟨during, dₑ, rest, rfl, own₁, own₂⟩ := own_split eq
  obtain ⟨p₁, -⟩ := p.split
  obtain ⟨backed₁, backed₂⟩ := backed.of_append
  have flushing : ∀ ev ∈ own 0 during, Flushing ev.1 ∧ ev.1 ≠ toDesk .forgetStatements := by
    intro ev mem
    rw [own₁] at mem
    simp only [List.mem_append, List.mem_cons, List.not_mem_nil, or_false] at mem
    rcases mem with rfl | rfl | mem | rfl
    · exact ⟨.stopWatches, by rintro ⟨⟩⟩
    · exact ⟨.outstanding, by rintro ⟨⟩⟩
    · exact flushed.flushing ev mem
    · exact ⟨.stopWatches, by rintro ⟨⟩⟩
  have kept := backed₁.all (P := (· ≠ toDesk .forgetStatements))
    (fun r => Mild.ne_forgetStatements) fun ev mem => (flushing ev mem).2
  have unclaimed : ∀ m ∈ during, claimed? m.event = none := fun m mem =>
    backed₁.all (P := fun r => ∀ x, claimed? ⟨r, x⟩ = none) (fun r => Mild.unclaimed)
      (fun ev mem => (flushing ev mem).1.unclaimed) m mem m.event.2
  refine ⟨during, dₑ, rest, rfl, kept, fun key => ?_, fun m mem => ?_⟩
  · have whole : Ran flush (own 0 ([] ++ during ++ ⟨0, dₑ, _⟩ :: rest)) n := ran
    refine flush_shuts p₁ whole rfl fun m mem => ?_
    rw [unclaimed m mem]
    exact (Option.some_ne_none key).symm
  · exact ((backed₂.of_append (h := [_])).2.mild own₂ mem).unclaimed _

section Stretch

variable {middle : List Act} {task : Task} {fresh : String} {started last : List Moment}
  {ended : Except Error Report}

/-- A test ends by forgetting its statements. None of them is open then, and none is claimed
afterwards. -/
theorem Stretch.closing (st : Stretch s task fresh started middle last ended) :
    ∃ head dₑ rest, st.till = head ++ ⟨0, dₑ, ⟨toDesk .forgetStatements, ()⟩⟩ :: rest ∧
      (∀ m ∈ head, m.event.1 ≠ toDesk .forgetStatements) ∧ (∀ key, Shut key dₑ) ∧
      ∀ m ∈ rest, claimed? m.event = none := by
  obtain ⟨-, backed⟩ := st.backed.of_append
  obtain ⟨dₛ, -, p⟩ := passes_append_iff.mp st.passes
  obtain ⟨first, d₁, tail, split, own₁, own₂⟩ := own_split (s := []) st.flushing
  rw [split] at p backed
  obtain ⟨backed₁, backed₂⟩ := backed.of_append
  obtain ⟨-, d₂, -, p₂⟩ := p.split
  have flushed := st.flushed
  rw [← own₂] at flushed
  obtain ⟨during, dₑ, rest, rfl, kept, shut, unclaimed⟩ :=
    flush_split p₂ (backed₂.of_append (h := [_])).2 flushed
  refine ⟨first ++ ⟨0, d₁, ⟨toDesk .endTest, some (testOf s task fresh st.keywords)⟩⟩ :: during,
    dₑ, rest, ?_, ?_, shut, unclaimed⟩
  · rw [split, List.append_assoc]
    rfl
  · refine List.forall_mem_append.mpr ⟨fun m mem => ?_, List.forall_mem_cons.mpr ⟨?_, kept⟩⟩
    · exact (backed₁.mild own₁ mem).ne_forgetStatements
    · rintro ⟨⟩

variable (st : Stretch s task fresh started middle last ended)
  (front : ∀ a ∈ middle, Ran (a.operation.program s) (own 0 a.moments) a.result)
  (going : ∀ a ∈ middle, a.operation ≠ .finish)

include front going

/-- What is open when the test begins, or is forgotten meanwhile, is settled in its course. -/
theorem Stretch.settled (there : c ∈ Block.preorderAll (testOf s task fresh st.keywords).tree)
    (verify : c.isVerify) (known : Board.key? c = some key)
    (due : Unsettled key st.atReset ∨ ∃ a ∈ middle, a.operation = .reattach) :
    ∃ m ∈ st.since ++ moments middle ++ st.till, m.verdictOn? key ≠ none := by
  by_contra nothing
  have silent : ∀ m ∈ st.since ++ moments middle ++ st.till, m.verdictOn? key = none := by
    simpa using nothing
  obtain ⟨head, dₑ, rest, split, kept, shut, -⟩ := st.closing
  have p := st.passes
  rw [split, ← List.append_assoc] at p
  rw [split, ← List.append_assoc] at silent
  obtain ⟨p, -⟩ := p.split
  obtain ⟨silent, -⟩ := List.forall_mem_append.mp silent
  have whole := p
  obtain ⟨d₃, p, p₃⟩ := passes_append_iff.mp p
  obtain ⟨d₂, p₁, p₂⟩ := passes_append_iff.mp p
  obtain ⟨backed₁, backed₂⟩ := st.backed.of_append.1.of_append
  have present : Present key dₑ :=
    p₃.present kept (present_after p₂ backed₂ front going st.running there verify known
      (install_presents p₁ backed₁ st.installed there verify known))
  have unsettled : Unsettled key dₑ := by
    obtain so | ⟨a, mem, anew⟩ := due
    · exact whole.unsettled silent so
    · obtain ⟨h₁, d₁, h₂, eq⟩ := reattach_forgets p₂ front st.running mem anew
      rw [eq, List.append_assoc, List.append_assoc, List.cons_append, ← List.append_assoc]
        at whole silent
      obtain ⟨-, d₄, takes, rest⟩ := whole.split
      refine rest.unsettled (fun m mem => silent m ?_) fun e there => ?_
      · exact List.mem_append_right _ (List.mem_cons_of_mem _ mem)
      · cases (forgotten takes key).symm.trans there
  obtain ⟨e, here⟩ := present
  exact absurd ((unsettled e here).symm.trans (shut key e here)) Bool.false_ne_true

omit front in
/-- What was settled before the test begins gets no verdict in its course unless it is forgotten
meanwhile. -/
theorem Stretch.left_out (asked : ∀ a ∈ middle, ∀ m ∈ a.moments, a.operation.Asked m.event.1)
    (kept : ∀ a ∈ middle, a.operation ≠ .reattach)
    (there : st.atReset.board.entry? key = some e) (final : e.status.isFinal) :
    ∀ m ∈ st.since ++ moments middle ++ st.till, m.verdictOn? key = none := by
  obtain ⟨head, dₑ, rest, split, keptHead, -, unclaimed⟩ := st.closing
  have p := st.passes
  rw [split, ← List.append_assoc] at p ⊢
  obtain ⟨p₁, d₁, takes, p₂⟩ := p.split
  have keptSince := st.backed.of_append.1.of_append.1.all (P := (· ≠ toDesk .forgetStatements))
    (fun r => Mild.ne_forgetStatements) (install_keeps_statements st.installed)
  have keptBetween : ∀ m ∈ moments middle, m.event.1 ≠ toDesk .forgetStatements := by
    intro m mem
    obtain ⟨a, there, mem⟩ := List.mem_flatMap.mp mem
    exact (asked a there m mem).ne_forgetStatements (going a there) (kept a there)
  have keptAll := List.forall_mem_append.mpr
    ⟨List.forall_mem_append.mpr ⟨keptSince, keptBetween⟩, keptHead⟩
  have shut : Shut key d₁ := fun e here => by cases (forgotten takes key).symm.trans here
  refine List.forall_mem_append.mpr ⟨p₁.silent_of_settled keptAll there final, ?_⟩
  refine List.forall_mem_cons.mpr ⟨rfl, p₂.silent_of_shut shut fun m mem => ?_⟩
  rw [unclaimed m mem]
  exact (Option.some_ne_none key).symm

end Stretch

/-! ## What is reported -/

theorem Operation.Asked.message_ne {o : Operation} {r : surroundings.Request} (asked : o.Asked r)
    {found : Outcome} (settling : settling? r = some (key, found)) :
    found.message ≠ notYetMet := by
  cases asked with
  | mild _ mild => exact mild.message_ne settling
  | claim | beginTest | forgetResults | forgetOld | endTest | forgetAll => cases settling

theorem mem_verdicts {v : Verdict} :
    v ∈ verdicts h ↔ ∃ m ∈ h, ∃ key, m.verdict? = some (key, v) := by
  simp [verdicts]

theorem verdict?_of_verdictOn? {v : Verdict} (verdict : m.verdictOn? key = some v) :
    m.verdict? = some (key, v) := by
  obtain ⟨⟨name, v'⟩, filtered, rfl⟩ := Option.map_eq_some_iff.mp verdict
  obtain ⟨about, same⟩ := Option.filter_eq_some_iff.mp filtered
  rw [about, show name = key from of_decide_eq_true same]

/-- No verdict says that nobody looked. -/
theorem message_of_verdict {o : Operation} {v : Verdict} (asked : o.Asked m.event.1)
    (told : m.verdict? = some (key, v)) : v.message ≠ notYetMet := by
  cases settling : settling? m.event.1 with
  | none => cases (verdict?_of_other (i := m.who) (d := m.desk) settling).symm.trans told
  | some about =>
      obtain ⟨name, found⟩ := about
      have verdict := (verdict?_of_settling (i := m.who) (d := m.desk) settling).symm.trans told
      obtain ⟨v', settled, eq⟩ := Option.map_eq_some_iff.mp verdict
      obtain ⟨-, rfl⟩ := Prod.mk.inj eq
      rw [Board.settle_eq] at settled
      obtain ⟨e, -, rfl⟩ := Option.map_eq_some_iff.mp settled
      exact asked.message_ne settling

section Summary

variable {source : String} {vs : List Verdict} {v : Verdict}

theorem lastOn_eq_none_iff : lastOn source vs = none ↔ ∀ v ∈ vs, v.source ≠ source := by
  simp [lastOn]

theorem summary_eq_none_iff : summary source vs = none ↔ ∀ v ∈ vs, v.source ≠ source := by
  rw [summary, Option.orElse_eq_none, lastOn_eq_none_iff, lastOn_eq_none_iff]
  refine ⟨And.right, fun others => ⟨fun v mem => ?_, others⟩⟩
  exact others v (List.mem_filter.mp mem).1

theorem mem_of_lastOn (last : lastOn source vs = some v) : v ∈ vs :=
  List.mem_reverse.mp (List.mem_of_find?_eq_some last)

theorem mem_of_summary (sum : summary source vs = some v) : v ∈ vs := by
  rw [summary, Option.orElse_eq_some] at sum
  obtain passing | ⟨-, last⟩ := sum
  · exact (List.mem_filter.mp (mem_of_lastOn passing)).1
  · exact mem_of_lastOn last

/-- A report that says of a source what verdicts sum up to. -/
theorem reported_iff {reported : Option Verdict} (plain : ∀ v ∈ vs, v.message ≠ notYetMet)
    (eq : reported = (summary source vs <|> some (placeholder source))) :
    (reported = some (placeholder source) ↔ ∀ v ∈ vs, v.source ≠ source) ∧
    ∀ v ∈ vs, v.source = source →
      ∃ v ∈ vs, reported = some v ∧ v ≠ placeholder source := by
  rw [← summary_eq_none_iff]
  cases sum : summary source vs with
  | none =>
      rw [sum] at eq
      refine ⟨⟨fun _ => rfl, fun _ => eq⟩, fun v mem same => ?_⟩
      exact absurd same (summary_eq_none_iff.mp sum v mem)
  | some v =>
      rw [sum] at eq
      have mem := mem_of_summary sum
      have other : v ≠ placeholder source := fun same => plain v mem (by rw [same]; rfl)
      refine ⟨⟨fun placed => ?_, fun absurd => (by cases absurd)⟩, fun _ _ _ => ⟨v, mem, eq, other⟩⟩
      exact absurd (Option.some.inj (eq.symm.trans placed)) other

end Summary

section Report

variable {before middle after : List Act} {task : Task} {fresh id : String}
  {started last : List Moment} {ended : Except Error Report}

/-- However a usability test goes, it gives a verdict on a verify command of its script when, and
only when, the statement was not settled already at the reset of the results or the statements
were attached anew meanwhile. Then the report repeats such a verdict. The report says that the
statement was not met yet when, and only when, there was no verdict on its source. -/
theorem report_covers
    (course : Course s (before ++ ⟨.begin task fresh, .ok id, started⟩ ::
      (middle ++ ⟨.finish, ended, last⟩ :: after)) d)
    (going : ∀ a ∈ middle, a.operation ≠ .finish) :
    ∃ read keywords earlier atReset since till atEnd later report,
      Ran Session.keywords.run read (.ok keywords) ∧ read <+: own 0 started ∧
      started = earlier ++ ⟨0, atReset, ⟨toDesk .forgetResults, ()⟩⟩ :: since ∧
      last = till ++ ⟨0, atEnd, ⟨toDesk .results, atEnd.board.results⟩⟩ :: later ∧
      let during := since ++ moments middle ++ till
      ended = .ok report ∧
      ∀ c ∈ Block.preorderAll (Script.parse keywords s.commandTimeout task.script), c.isVerify →
        ∃ key, Board.key? c = some key ∧
          ((∃ m ∈ during, ∃ v, m.verdictOn? key = some v) ↔
            Unsettled key atReset ∨ ∃ a ∈ middle, a.operation = .reattach) ∧
          ((∃ m ∈ during, ∃ v, m.verdictOn? key = some v) →
            ∃ v ∈ verdicts during, verdictOn c.src report.statements = some v ∧
              v ≠ placeholder c.src) ∧
          (verdictOn c.src report.statements = some (placeholder c.src) ↔
            ∀ v ∈ verdicts during, v.source ≠ c.src) := by
  obtain ⟨st⟩ := course.stretch going
  have front : ∀ a ∈ middle, Ran (a.operation.program s) (own 0 a.moments) a.result := by
    intro a there
    exact course.front a (by simp [there])
  have asked : ∀ a ∈ middle, ∀ m ∈ a.moments, a.operation.Asked m.event.1 := by
    intro a there m mem
    exact course.asked (by simp [there]) mem
  obtain ⟨h₀, reached⟩ := st.reached
  have named : ∀ m ∈ st.since ++ moments middle ++ st.till, Named m.desk :=
    (st.passes.named (reached.named named_new).1).2
  refine ⟨st.read, st.keywords, st.earlier, st.atReset, st.since, st.till, st.atEnd, st.later, _,
    st.found, st.reading, st.begun, st.over_, st.report, ?_⟩
  intro c there verify
  obtain ⟨key, known⟩ := Script.key_of_parse there verify
  have listed : c.src ∈ sources (Script.parse st.keywords s.commandTimeout task.script) :=
    List.mem_map_of_mem (List.mem_filter.mpr ⟨there, verify⟩)
  have reports := st.verdictOn_report c.src
  rw [if_pos listed] at reports
  have plain : ∀ v ∈ verdicts (st.since ++ moments middle ++ st.till), v.message ≠ notYetMet := by
    intro v mem
    obtain ⟨m, mem, name, told⟩ := mem_verdicts.mp mem
    obtain ⟨o, asked⟩ := st.asked m mem
    exact message_of_verdict asked told
  obtain ⟨placed, repeated⟩ := reported_iff plain reports
  refine ⟨key, known, ⟨?_, ?_⟩, ?_, placed⟩
  · rintro ⟨m, mem, v, verdict⟩
    by_contra neither
    obtain ⟨settled, kept⟩ := not_or.mp neither
    obtain ⟨e, there, final⟩ : ∃ e, st.atReset.board.entry? key = some e ∧ e.status.isFinal := by
      simpa [Unsettled] using settled
    have none := st.left_out going asked (fun a mem anew => kept ⟨a, mem, anew⟩) there final m mem
    cases none.symm.trans verdict
  · intro due
    obtain ⟨m, mem, verdict⟩ := st.settled front going there verify known due
    obtain ⟨v, verdict⟩ := Option.ne_none_iff_exists'.mp verdict
    exact ⟨m, mem, v, verdict⟩
  · rintro ⟨m, mem, v, verdict⟩
    refine repeated v (mem_verdicts.mpr ⟨m, mem, key, verdict?_of_verdictOn? verdict⟩) ?_
    obtain ⟨t, eq⟩ := source_of_verdict (named m mem) verdict
    obtain ⟨u, eq'⟩ := kind_of_key known
    exact source_of_key (eq.symm.trans eq')

end Report

/-! A statement that was met before the test began. -/

namespace Beforehand

open Overheard (source command reading asked ran_parse_blank tree_eq ran_end)

def task : Task := { Overheard.task with script := source }

def test : Test := .ofTask task "t" [.node command []]

def report : Report := test.report []

def name : String := "title:" ++ source

def found : Outcome := ⟨true, "Page title contains \"Shop\" verified", some "Shop"⟩

def observing : List (Nat × surroundings.Event) :=
  [asked (.claim command) (some name), (1, ⟨toPage .title, .ok "Shop"⟩),
    (1, ⟨toDesk (.settle name found), true⟩), (0, ⟨.inr (.gather [.setup name command]), ()⟩)]

def beginning : List (Nat × surroundings.Event) := reading ++
  [asked (.beginTest test) (.ok ()), asked .forgetResults (), asked (.claim command) none,
    (0, ⟨.inr (.gather []), ()⟩)]

def ending : List (Nat × surroundings.Event) :=
  [asked .endTest (some test), asked .stopWatches (), asked .outstanding [], asked .stopWatches (),
    asked .forgetStatements (), asked .results []]

def observed : Desk := afterAll {} observing

def begun : Desk := afterAll observed beginning

def acts : List Act := [⟨.observe [.node command []], (), chronicle {} observing⟩,
  ⟨.begin task "", .ok "t", chronicle observed beginning⟩,
  ⟨.finish, .ok report, chronicle begun ending⟩]

theorem ran_observe : Ran (install [.node command []])
    ((observing.filter (·.1 = 0)).map (·.2)) () :=
  .ask _ (.ask _ (.done _))

theorem came : Came (Job.code {} (.setup name command))
    ((observing.filter (·.1 = 1)).map (·.2)) :=
  .ask _ (.ask _ (.start _))

theorem ran_begin : Ran (startTest {} task "").run (beginning.map (·.2)) (.ok "t") := by
  have parsed := ran_parse_blank source
  rw [tree_eq] at parsed
  exact ran_bind_of_ok parsed (.ask _ (.ask _ (.ask _ (.ask _ (.done _)))))

theorem moments_acts : moments acts = chronicle {} (observing ++ beginning ++ ending) := rfl

theorem fit : FitAll {} (observing ++ beginning ++ ending) := by
  refine ⟨rfl, trivial, rfl, trivial, ?_⟩
  refine ⟨trivial, trivial, rfl, rfl, rfl, trivial, ?_⟩
  refine ⟨rfl, rfl, ?_, rfl, rfl, rfl, trivial⟩
  exact List.mergeSort_nil

theorem course : Course {} acts (afterAll {} (observing ++ beginning ++ ending)) where
  passes := by
    rw [moments_acts]
    exact passes_chronicle fit
  front := by
    refine List.forall_mem_cons.mpr ⟨ran_observe, ?_⟩
    refine List.forall_mem_cons.mpr ⟨ran_begin, ?_⟩
    exact List.forall_mem_cons.mpr ⟨ran_end test, List.forall_mem_nil _⟩
  background := by
    intro i other
    refine ⟨.setup name command, ?_⟩
    rw [moments_acts, own_chronicle]
    by_cases first : i = 1
    · subst first
      exact came
    · have two : ∀ e ∈ observing ++ beginning ++ ending, e.1 = 0 ∨ e.1 = 1 := by decide
      have none : (observing ++ beginning ++ ending).filter (·.1 = i) = [] := by
        refine List.filter_eq_nil_iff.mpr ?_
        intro e mem
        have := two e mem
        simp only [decide_eq_true_eq]
        omega
      rw [none]
      exact .start _

end Beforehand

theorem report_covers_beforehand :
    ∃ since till : List Moment, (∀ m ∈ since ++ till, m.verdictOn? Beforehand.name = none) ∧
      verdictOn Overheard.source Beforehand.report.statements =
        some (placeholder Overheard.source) := by
  have course : Course {} ([⟨.observe [.node Overheard.command []], (), _⟩] ++
    ⟨.begin Beforehand.task "", .ok "t", _⟩ ::
    ([] ++ ⟨.finish, .ok Beforehand.report, _⟩ :: [])) _ := Beforehand.course
  obtain ⟨_, keywords, _, _, since, till, _, _, report, -, -, -, -, eq, covers⟩ :=
    report_covers course (by simp)
  cases eq
  have tree : Script.parse keywords ( {} : Settings).commandTimeout Beforehand.task.script =
    [.node Overheard.command []] := Overheard.tree_eq keywords
  rw [tree] at covers
  obtain ⟨key, known, -, repeated, -⟩ :=
    covers Overheard.command (by simp [Block.preorderAll, Block.preorder]) rfl
  obtain rfl : Beforehand.name = key := Option.some.inj known
  refine ⟨since, till, fun m mem => ?_, rfl⟩
  by_contra verdict
  obtain ⟨v, verdict⟩ := Option.ne_none_iff_exists'.mp verdict
  have inside : m ∈ since ++ moments [] ++ till := by simpa [moments] using mem
  obtain ⟨v', -, reported, other⟩ := repeated ⟨m, inside, v, verdict⟩
  exact other (Option.some.inj reported).symm

end BrowserScript.Session
