import BrowserScript.Proofs.Session.Requests
import BrowserScript.Proofs.Session.Settlement

/-!
Courses of a session: its operations one after another, each with what happened until the next,
while setups and watches go on in the background as they like.
-/

namespace BrowserScript.Session

open Prog
open Usability (Task Test Report)

inductive Operation
  | observe (tree : List Block)
  | run (script : String) (start : Nat)
  | resume
  | stop
  | begin (task : Task) (fresh : String)
  | reattach
  | finish

namespace Operation

def Result : Operation → Type
  | .observe _ => Unit
  | .run .. => Except Error Run.Outcome
  | .resume => Except Error (Option Run.Outcome)
  | .stop | .reattach => Except Error Unit
  | .begin .. => Except Error String
  | .finish => Except Error Report

def program (s : Settings) : (o : Operation) → Program o.Result
  | .observe tree => install tree
  | .run script start => (runScript s script start).run
  | .resume => (Session.resume s).run
  | .stop => Session.stop.run
  | .begin task fresh => (startTest s task fresh).run
  | .reattach => Session.reattach.run
  | .finish => endTest.run

/-- What an operation may ask. -/
inductive Asked : Operation → surroundings.Request → Prop
  | mild {r : surroundings.Request} (o : Operation) (mild : Mild r) : Asked o r
  | claim (o : Operation) (going : o ≠ .finish) (c : Command) : Asked o (toDesk (.claim c))
  | beginTest (task : Task) (fresh : String) (t : Test) :
      Asked (.begin task fresh) (toDesk (.beginTest t))
  | forgetResults (task : Task) (fresh : String) :
      Asked (.begin task fresh) (toDesk .forgetResults)
  | forgetOld : Asked .reattach (toDesk .forgetStatements)
  | endTest : Asked .finish (toDesk .endTest)
  | forgetAll : Asked .finish (toDesk .forgetStatements)

end Operation

theorem claimAll_asks {P : surroundings.Request → Prop} (claims : ∀ c, P (toDesk (.claim c)))
    (cs : List Command) : Asks P (claimAll cs) := by
  induction cs with
  | nil => trivial
  | cons c rest ih =>
      refine ⟨claims c, fun claimed => ih.bind fun others => ?_⟩
      cases claimed <;> trivial

theorem install_asks {P : surroundings.Request → Prop} (claims : ∀ c, P (toDesk (.claim c)))
    (gather : ∀ jobs, P (.inr (.gather jobs))) (tree : List Block) : Asks P (install tree) :=
  (claimAll_asks claims _).bind fun jobs => ⟨gather jobs, fun _ => trivial⟩

theorem ofRun_mild (a : Run.Access α) : Asks Mild (ofRun a).run := by
  refine Asks.bind (asks_run ?_ a.run) fun r => ?_
  · intro r
    rcases r with (r | r) | r | r
    · exact ⟨.page r, fun _ => trivial⟩
    · exact ⟨.scheduler (.clock r), fun _ => trivial⟩
    · exact ⟨.store r, fun _ => trivial⟩
    · exact ⟨.tell r, fun _ => trivial⟩
  · cases r <;> trivial

theorem keywords_mild : Asks Mild keywords.run := by
  refine Asks.bind_run ?_ fun url => (ofRun_mild _).bind_run fun shared => ?_
  · exact asks_lift (onPage_mild _)
  · split
    · exact (ofRun_mild _).bind_run fun _ => trivial
    · trivial

theorem parse_mild (s : Settings) (script : String) : Asks Mild (parse s script).run :=
  keywords_mild.bind_run fun _ => trivial

theorem runScript_mild (s : Settings) (script : String) (start : Nat) :
    Asks Mild (runScript s script start).run := by
  refine (parse_mild s script).bind_run fun tree => ?_
  refine (ofRun_mild _).bind_run fun _ => (ofRun_mild _).bind_run fun _ => ?_
  exact (ofRun_mild _).bind_run fun _ => ofRun_mild _

theorem resume_mild (s : Settings) : Asks Mild (resume s).run := by
  refine (ofRun_mild _).bind_run fun tree => (ofRun_mild _).bind_run fun cursor => ?_
  have goOn (start : Nat) : Asks Mild (ExceptT.run (m := Prog surroundings) (ε := Error) (do
      if tree.length ≤ start then return none
      return some (← execute s start tree))) := by
    split
    · trivial
    · exact (ofRun_mild _).bind_run fun _ => trivial
  cases cursor <;> exact goOn _

theorem giveUp_mild (key : String) {rest : List (String × Option Probe)}
    (ih : Asks Mild (flushAll rest)) : Asks Mild (giveUp key rest) :=
  ⟨.settle _ _ (show Board.incompleteMessage ≠ Usability.notYetMet by decide),
    fun _ => ih.bind fun _ => trivial⟩

theorem flushAll_mild (probes : List (String × Option Probe)) : Asks Mild (flushAll probes) := by
  induction probes with
  | nil => trivial
  | cons first rest ih =>
      obtain ⟨key, probe⟩ := first
      cases probe with
      | none => exact giveUp_mild key ih
      | some p =>
          rw [flushAll_some]
          refine (onPage_mild _).bind_of_yields (p.look_plain true).run fun seen plain => ?_
          cases seen with
          | satisfied found => exact (settle_mild key plain).bind fun _ => ih
          | unmet | gone => exact giveUp_mild key ih

theorem flush_asks : Asks Operation.finish.Asked flush := by
  refine ⟨.mild _ .stopWatches, fun _ => ⟨.mild _ .outstanding, fun probes => ?_⟩⟩
  refine ((flushAll_mild probes).mono fun _ => .mild _).bind fun incomplete => ?_
  exact ⟨.mild _ .stopWatches, fun _ => ⟨.forgetAll, fun _ => trivial⟩⟩

theorem install_asked {o : Operation} (going : o ≠ .finish) (tree : List Block) :
    Asks o.Asked (install tree) :=
  install_asks (.claim o going) (fun _ => .mild o (.scheduler _)) tree

theorem program_asks (s : Settings) (o : Operation) : Asks o.Asked (o.program s) := by
  cases o with
  | observe tree => exact install_asked (by rintro ⟨⟩) tree
  | run script start => exact (runScript_mild s script start).mono fun _ => .mild _
  | resume => exact (resume_mild s).mono fun _ => .mild _
  | stop => exact (ofRun_mild _).mono fun _ => .mild _
  | begin task fresh =>
      refine ((parse_mild s task.script).mono fun _ => .mild _).bind_run fun tree => ?_
      refine Asks.bind_run ⟨.beginTest task fresh _, fun _ => trivial⟩ fun begun => ?_
      cases begun with
      | error running => trivial
      | ok _ =>
          refine Asks.bind_run ⟨.forgetResults task fresh, fun _ => trivial⟩ fun _ => ?_
          exact (asks_lift (install_asked (by rintro ⟨⟩) tree)).bind_run fun _ => trivial
  | reattach =>
      refine Asks.bind_run ⟨.mild _ .test, fun _ => trivial⟩ fun test => ?_
      cases test with
      | none => trivial
      | some test =>
          refine Asks.bind_run ⟨.mild _ .stopWatches, fun _ => ⟨.forgetOld, fun _ => trivial⟩⟩ ?_
          exact fun _ => asks_lift (install_asked (by rintro ⟨⟩) test.tree)
  | finish =>
      refine Asks.bind_run ⟨.endTest, fun _ => trivial⟩ fun test => ?_
      cases test with
      | none => trivial
      | some test =>
          refine Asks.bind_run ?_ fun _ => ⟨.mild _ .results, fun _ => trivial⟩
          rw [run_discard_eq]
          exact (asks_lift flush_asks).bind fun _ => trivial

/-! ## Transcripts -/

variable {t : List surroundings.Event}

theorem ran_claimAll {cs : List Command} {jobs : List Job} (ran : Ran (claimAll cs) t jobs)
    {c : Command} (there : c ∈ cs) : ∃ x, (⟨toDesk (.claim c), x⟩ : surroundings.Event) ∈ t := by
  induction cs generalizing t jobs with
  | nil => cases there
  | cons first rest ih =>
      obtain ⟨t₁, claimed, t₂, rfl, asked, ran⟩ := ran_bind_iff.mp ran
      rw [ran_ask asked]
      rcases List.mem_cons.mp there with rfl | there
      · exact ⟨claimed, by simp⟩
      · obtain ⟨t₃, others, t₄, rfl, ran, -⟩ := ran_bind_iff.mp ran
        obtain ⟨x, mem⟩ := ih ran there
        exact ⟨x, by simp [mem]⟩

/-- All verify statements are claimed. -/
theorem ran_install {tree : List Block} (ran : Ran (install tree) t ()) {c : Command}
    (there : c ∈ Block.preorderAll tree) (verify : c.isVerify) :
    ∃ x, (⟨toDesk (.claim c), x⟩ : surroundings.Event) ∈ t := by
  obtain ⟨t₁, jobs, t₂, rfl, ran, -⟩ := ran_bind_iff.mp ran
  obtain ⟨x, mem⟩ := ran_claimAll ran (List.mem_filter.mpr ⟨there, verify⟩)
  exact ⟨x, List.mem_append_left _ mem⟩

theorem ran_cleanup (ran : Ran cleanup t ()) :
    t = [⟨toDesk .stopWatches, ()⟩, ⟨toDesk .forgetStatements, ()⟩] := by
  obtain ⟨_, _, _, rfl, stopped, forgot⟩ := ran_bind_iff.mp ran
  rw [ran_ask stopped, ran_ask forgot]
  rfl

theorem ran_reattach {r : Except Error Unit} (ran : Ran reattach.run t r) :
    t = [⟨toDesk .test, none⟩] ∨
    ∃ test u, t = [⟨toDesk .test, some test⟩, ⟨toDesk .stopWatches, ()⟩,
      ⟨toDesk .forgetStatements, ()⟩] ++ u ∧ Ran (install test.tree) u () := by
  obtain ⟨_, test, t₂, rfl, asked, ran⟩ := ran_lift_bind ran
  rw [ran_ask asked]
  cases test with
  | none =>
      obtain ⟨rfl, -⟩ := ran_done_iff.mp ran
      exact .inl rfl
  | some test =>
      obtain ⟨_, _, u, rfl, cleaned, ran⟩ := ran_lift_bind ran
      obtain ⟨_, -, installed⟩ := ran_lift_iff.mp ran
      rw [ran_cleanup cleaned]
      exact .inr ⟨test, u, rfl, installed⟩

theorem ran_endTest {r : Except Error Report} (ran : Ran endTest.run t r) :
    t = [⟨toDesk .endTest, none⟩] ∨
    ∃ test u n results, t = ⟨toDesk .endTest, some test⟩ :: u ++ [⟨toDesk .results, results⟩] ∧
      Ran flush u n ∧ r = .ok (test.report results) := by
  obtain ⟨_, test, t₂, rfl, asked, ran⟩ := ran_lift_bind ran
  rw [ran_ask asked]
  cases test with
  | none =>
      obtain ⟨rfl, -⟩ := ran_done_iff.mp ran
      exact .inl rfl
  | some test =>
      rw [run_bind_eq, run_discard_eq, Prog.bind_assoc] at ran
      obtain ⟨u, x, v, rfl, flushed, ran⟩ := ran_bind_iff.mp ran
      obtain ⟨n, rfl, flushed'⟩ := ran_lift_iff.mp flushed
      obtain ⟨_, results, _, rfl, read, ran⟩ := ran_lift_bind ran
      obtain ⟨rfl, rfl⟩ := ran_done_iff.mp ran
      rw [ran_ask read]
      exact .inr ⟨test, u, n, results, rfl, flushed', rfl⟩

theorem Mild.ne_forgetResults {r : surroundings.Request} (mild : Mild r) :
    r ≠ toDesk .forgetResults := by
  rintro rfl
  cases mild

theorem ran_parse {s : Settings} {script : String} {r : Except Error (List Block)}
    (ran : Ran (parse s script).run t r) :
    (∃ e, r = .error e) ∨ ∃ keywords, r = .ok (Script.parse keywords s.commandTimeout script) ∧
      Ran Session.keywords.run t (.ok keywords) := by
  cases r with
  | error e => exact .inl ⟨e, rfl⟩
  | ok tree =>
      obtain ⟨t₁, keywords, t₂, rfl, first, last⟩ := ran_ok_bind_iff.mp ran
      obtain ⟨rfl, eq⟩ := ran_done_iff.mp last
      cases eq
      rw [List.append_nil]
      exact .inr ⟨keywords, rfl, first⟩

/-- A test begins, or the results are kept. -/
theorem ran_startTest {s : Settings} {task : Task} {fresh : String} {r : Except Error String}
    (ran : Ran (startTest s task fresh).run t r) :
    (∀ ev ∈ t, ev.1 ≠ toDesk .forgetResults) ∧ (∃ e, r = .error e) ∨
    ∃ u keywords v, Ran Session.keywords.run u (.ok keywords) ∧
      let test := .ofTask task (task.id.getD fresh)
        (Script.parse keywords s.commandTimeout task.script)
      t = u ++ [⟨toDesk (.beginTest test), .ok ()⟩, ⟨toDesk .forgetResults, ()⟩] ++ v ∧
      Ran (install test.tree) v () := by
  rw [startTest, run_bind_eq] at ran
  obtain ⟨u, x, t₂, rfl, parsed, ran⟩ := ran_bind_iff.mp ran
  have mild := parsed.asked (parse_mild s task.script)
  obtain ⟨e, rfl⟩ | ⟨keywords, rfl, found⟩ := ran_parse parsed
  · obtain ⟨rfl, rfl⟩ := ran_done_iff.mp ran
    refine .inl ⟨fun ev mem => ?_, e, rfl⟩
    exact (mild ev (by simpa using mem)).ne_forgetResults
  · obtain ⟨_, begun, v, rfl, asked, ran⟩ := ran_lift_bind ran
    rw [ran_ask asked]
    cases begun with
    | error running =>
        obtain ⟨rfl, rfl⟩ := ran_done_iff.mp ran
        refine .inl ⟨fun ev mem => ?_, _, rfl⟩
        rcases List.mem_append.mp mem with mem | mem
        · exact (mild ev mem).ne_forgetResults
        · obtain rfl := List.mem_singleton.mp (by simpa using mem)
          rintro ⟨⟩
    | ok begun =>
        obtain ⟨_, _, v, rfl, forgot, ran⟩ := ran_lift_bind ran
        obtain ⟨v, _, _, rfl, installed, ran⟩ := ran_lift_bind ran
        obtain ⟨rfl, -⟩ := ran_done_iff.mp ran
        rw [ran_ask forgot]
        refine .inr ⟨u, keywords, v, found, ?_, installed⟩
        simp

/-! ## Courses -/

/-- An operation with what it came to and what happened until the next. -/
structure Act where
  operation : Operation
  result : operation.Result
  moments : List Moment

def moments (acts : List Act) : List Moment := acts.flatMap (·.moments)

/-- The operations are what task 0 does. All other tasks are turns of jobs. -/
structure Course (s : Settings) (acts : List Act) (d : Desk) : Prop where
  passes : Passes {} (moments acts) d
  front : ∀ a ∈ acts, Ran (a.operation.program s) (own 0 a.moments) a.result
  background : ∀ i ≠ 0, ∃ job, Came (Job.code s job) (own i (moments acts))

variable {s : Settings} {acts : List Act} {a : Act} {d d' : Desk} {h : List Moment} {m : Moment}
  {T : Test}

theorem mem_own (mem : m ∈ h) : m.event ∈ own m.who h :=
  List.mem_map_of_mem (List.mem_filter.mpr ⟨mem, by simp⟩)

/-- What happens in the background is mild. -/
def Backed (h : List Moment) : Prop := ∀ m ∈ h, m.who ≠ 0 → Mild m.event.1

theorem Course.backed (course : Course s acts d) : Backed (moments acts) := by
  intro m mem other
  obtain ⟨job, came⟩ := course.background m.who other
  exact came.asked (code_mild s job) _ (mem_own mem)

theorem Course.asked (course : Course s acts d) (there : a ∈ acts) (mem : m ∈ a.moments) :
    a.operation.Asked m.event.1 := by
  by_cases front : m.who = 0
  · refine (course.front a there).asked (program_asks s a.operation) _ ?_
    rw [← front]
    exact mem_own mem
  · exact .mild _ (course.backed m (List.mem_flatMap.mpr ⟨a, there, mem⟩) front)

/-! ## The test under way -/

theorem Takes.test {ev : surroundings.Event} (takes : Takes d ev d')
    (going : ev.1 ≠ toDesk .endTest) (running : d.test = some T) : d'.test = some T := by
  cases takes.effect with
  | reported key satisfied found => rw [test_settle, running]
  | elsewhere _ _ _ same => rw [same, running]
  | served r =>
      cases r with
      | endTest => exact absurd rfl going
      | beginTest t => simp [Desk.serve, running]
      | settle key found => exact (test_settle d key found).trans running
      | _ => exact running

theorem Passes.test (p : Passes d h d') (going : ∀ m ∈ h, m.event.1 ≠ toDesk .endTest)
    (running : d.test = some T) :
    d'.test = some T ∧ ∀ m ∈ h, m.desk.test = some T := by
  induction p with
  | nil d => exact ⟨running, by simp⟩
  | cons who takes rest ih =>
      have next := takes.test (going _ (List.mem_cons_self ..)) running
      obtain ⟨last, all⟩ := ih (fun m mem => going m (List.mem_cons_of_mem _ mem)) next
      refine ⟨last, fun m mem => ?_⟩
      rcases List.mem_cons.mp mem with rfl | mem
      · exact running
      · exact all m mem

theorem Backed.mild (backed : Backed h) (none : own 0 h = []) (mem : m ∈ h) : Mild m.event.1 := by
  refine backed m mem fun front => ?_
  have mine := mem_own mem
  rw [front, none] at mine
  cases mine

/-- What all mild requests are and those of the front. -/
theorem Backed.all {P : surroundings.Request → Prop} (backed : Backed h)
    (mild : ∀ r, Mild r → P r) (front : ∀ ev ∈ own 0 h, P ev.1) : ∀ m ∈ h, P m.event.1 := by
  intro m mem
  by_cases mine : m.who = 0
  · refine front m.event ?_
    rw [← mine]
    exact mem_own mem
  · exact mild _ (backed m mem mine)

theorem Backed.of_append {h' : List Moment} (backed : Backed (h ++ h')) : Backed h ∧ Backed h' :=
  ⟨fun m mem => backed m (List.mem_append_left _ mem),
    fun m mem => backed m (List.mem_append_right _ mem)⟩

theorem Mild.ne_endTest {r : surroundings.Request} (mild : Mild r) : r ≠ toDesk .endTest := by
  rintro rfl
  cases mild

theorem Mild.ne_forgetStatements {r : surroundings.Request} (mild : Mild r) :
    r ≠ toDesk .forgetStatements := by
  rintro rfl
  cases mild

/-- Between two of its own requests a task leaves the test to itself. -/
theorem Passes.test_of_none (p : Passes d h d') (backed : Backed h) (none : own 0 h = [])
    (running : d.test = some T) : d'.test = some T :=
  (p.test (fun _ mem => (backed.mild none mem).ne_endTest) running).1

theorem begun_test {x : Except String Unit} (served : Desk.serve (.beginTest T) d = (x, d')) :
    (x = .ok () → d'.test = some T) ∧ (∀ T', d.test = some T' → x = .error T'.id) := by
  cases running : d.test with
  | none =>
      simp only [Desk.serve, running] at served
      obtain ⟨rfl, rfl⟩ := Prod.mk.inj served
      exact ⟨fun _ => rfl, fun T' absurd => by cases absurd⟩
  | some active =>
      simp only [Desk.serve, running] at served
      obtain ⟨rfl, rfl⟩ := Prod.mk.inj served
      refine ⟨fun absurd => (by cases absurd), ?_⟩
      rintro T' ⟨⟩
      rfl

/-- The test that a task makes of its script, read with some keywords. -/
def testOf (s : Settings) (task : Task) (fresh : String) (keywords : KeywordSet) : Test :=
  .ofTask task (task.id.getD fresh) (Script.parse keywords s.commandTimeout task.script)

/-- A test that begins, from its reset of the results. -/
theorem begin_split {task : Task} {fresh id : String} {started : List Moment}
    (p : Passes d started d') (backed : Backed started)
    (ran : Ran (startTest s task fresh).run (own 0 started) (.ok id)) :
    ∃ u keywords b d₀ since, Ran Session.keywords.run u (.ok keywords) ∧ u <+: own 0 started ∧
      started = b ++ ⟨0, d₀, ⟨toDesk .forgetResults, ()⟩⟩ :: since ∧
      d₀.test = some (testOf s task fresh keywords) ∧
      Ran (install (testOf s task fresh keywords).tree) (own 0 since) () := by
  obtain ⟨-, e, absurd⟩ | ⟨u, keywords, v, found, eq, installed⟩ := ran_startTest ran
  · cases absurd
  have read : u <+: own 0 started := by
    rw [eq, List.append_assoc]
    exact List.prefix_append _ _
  rw [List.append_assoc] at eq
  obtain ⟨b, d₁, h₁, rfl, -, rest⟩ := own_split eq
  obtain ⟨k, d₀, since, rfl, between, rfl⟩ := own_split (s := []) rest
  obtain ⟨-, d₂, takes, p₁⟩ := p.split
  obtain ⟨p₂, -⟩ := p₁.split
  have running := (begun_test takes.served).1 rfl
  have others : Backed k := fun m mem => backed m (by simp [mem])
  refine ⟨u, keywords, _, d₀, since, found, read, (List.append_assoc b (_ :: k) _).symm, ?_,
    installed⟩
  exact p₂.test_of_none others between running

theorem endTest_answer {x : Option Test} {t : List surroundings.Event} (p : Passes d h d')
    (backed : Backed h) (running : d.test = some T) (eq : own 0 h = ⟨toDesk .endTest, x⟩ :: t) :
    x = some T := by
  obtain ⟨k, d₁, k', rfl, before, -⟩ := own_split (s := []) eq
  obtain ⟨p₁, d₂, takes, -⟩ := p.split
  have still := p₁.test_of_none backed.of_append.1 before running
  exact (congrArg Prod.fst takes.served).symm.trans still

/-- The end of a test, up to its reading of the results. -/
theorem finish_split {last : List Moment} {ended : Except Error Report} (p : Passes d last d')
    (backed : Backed last) (running : d.test = some T) (ran : Ran endTest.run (own 0 last) ended) :
    ∃ till d₁ e u n, last = till ++ ⟨0, d₁, ⟨toDesk .results, d₁.board.results⟩⟩ :: e ∧
      ended = .ok (T.report d₁.board.results) ∧ own 0 till = ⟨toDesk .endTest, some T⟩ :: u ∧
      Ran flush u n := by
  obtain eq | ⟨T', u, n, results, eq, flushed, rfl⟩ := ran_endTest ran
  · cases endTest_answer p backed running eq
  obtain ⟨till, d₁, e, rfl, own₁, -⟩ := own_split (t := []) eq
  obtain ⟨p₁, d₂, takes, -⟩ := p.split
  obtain rfl : results = d₁.board.results := (congrArg Prod.fst takes.served).symm
  cases endTest_answer p₁ backed.of_append.1 running own₁
  exact ⟨till, d₁, e, u, n, rfl, rfl, own₁, flushed⟩

/-! ## While a test goes on -/

namespace Operation.Asked

variable {o : Operation} {r : surroundings.Request}

theorem ne_endTest (asked : o.Asked r) (going : o ≠ .finish) : r ≠ toDesk .endTest := by
  rintro rfl
  cases asked with
  | mild _ mild => exact mild.ne_endTest rfl
  | endTest => exact going rfl

theorem ne_forgetStatements (asked : o.Asked r) (going : o ≠ .finish) (kept : o ≠ .reattach) :
    r ≠ toDesk .forgetStatements := by
  rintro rfl
  cases asked with
  | mild _ mild => exact mild.ne_forgetStatements rfl
  | forgetOld => exact kept rfl
  | forgetAll => exact going rfl

theorem ne_forgetResults (asked : o.Asked r) (kept : ∀ task fresh, o ≠ .begin task fresh) :
    r ≠ toDesk .forgetResults := by
  rintro rfl
  cases asked with
  | mild _ mild => exact mild.ne_forgetResults rfl
  | forgetResults task fresh => exact kept task fresh rfl

end Operation.Asked

/-- A test goes on while nothing finishes. -/
theorem unended_of_asked {middle : List Act} (going : ∀ a ∈ middle, a.operation ≠ .finish)
    (asked : ∀ a ∈ middle, ∀ m ∈ a.moments, a.operation.Asked m.event.1) :
    ∀ m ∈ moments middle, m.event.1 ≠ toDesk .endTest := by
  intro m mem
  obtain ⟨a, there, mem⟩ := List.mem_flatMap.mp mem
  exact (asked a there m mem).ne_endTest (going a there)

/-- While a test goes on, nothing resets the results: no other test can begin. -/
theorem Passes.results_kept {middle : List Act} (p : Passes d (moments middle) d')
    (running : d.test = some T) (going : ∀ a ∈ middle, a.operation ≠ .finish)
    (asked : ∀ a ∈ middle, ∀ m ∈ a.moments, a.operation.Asked m.event.1)
    (backed : Backed (moments middle))
    (front : ∀ a ∈ middle, Ran (a.operation.program s) (own 0 a.moments) a.result) :
    ∀ m ∈ moments middle, m.event.1 ≠ toDesk .forgetResults := by
  have tests := (p.test (T := T) (unended_of_asked going asked) running).2
  intro m mem
  obtain ⟨a, there, mine⟩ := List.mem_flatMap.mp mem
  obtain ⟨o, x, h⟩ := a
  cases o with
  | begin task fresh =>
      by_cases front₀ : m.who = 0
      · have own₀ := mem_own mine
        rw [front₀] at own₀
        obtain ⟨kept, -⟩ | ⟨u, keywords, v, -, eq, -⟩ := ran_startTest (front _ there)
        · exact kept _ own₀
        · have begins : (⟨toDesk (.beginTest (testOf s task fresh keywords)), .ok ()⟩ :
              surroundings.Event) ∈ own 0 h := by
            rw [eq]
            exact List.mem_append_left _ (List.mem_append_right _ (List.mem_cons_self ..))
          obtain ⟨⟨who, d₁, ev⟩, mem', rfl⟩ := mem_of_mem_own begins
          have inside : Moment.mk who d₁ _ ∈ moments middle :=
            List.mem_flatMap.mpr ⟨_, there, mem'⟩
          obtain ⟨d₂, takes⟩ := p.takes inside
          cases (begun_test takes.served).2 T (tests _ inside)
      · exact (backed m mem front₀).ne_forgetResults
  | _ => exact (asked _ there m mine).ne_forgetResults (by rintro _ _ ⟨⟩)

/-- The stretch of a test in a course, from its reset of the results to its reading of them. -/
structure Stretch (s : Settings) (task : Task) (fresh : String) (started : List Moment)
    (middle : List Act) (last : List Moment) (ended : Except Error Report) where
  read : List surroundings.Event
  keywords : KeywordSet
  found : Ran Session.keywords.run read (.ok keywords)
  reading : read <+: own 0 started
  earlier : List Moment
  atReset : Desk
  since : List Moment
  begun : started = earlier ++ ⟨0, atReset, ⟨toDesk .forgetResults, ()⟩⟩ :: since
  reached : ∃ h, Passes {} h atReset
  installed : Ran (install (testOf s task fresh keywords).tree) (own 0 since) ()
  till : List Moment
  atEnd : Desk
  later : List Moment
  over_ : last = till ++ ⟨0, atEnd, ⟨toDesk .results, atEnd.board.results⟩⟩ :: later
  report : ended = .ok ((testOf s task fresh keywords).report atEnd.board.results)
  looks : List surroundings.Event
  incomplete : Nat
  flushing : own 0 till = ⟨toDesk .endTest, some (testOf s task fresh keywords)⟩ :: looks
  flushed : Ran flush looks incomplete
  passes : Passes { atReset with board := { atReset.board with results := [] } }
    (since ++ moments middle ++ till) atEnd
  backed : Backed (since ++ moments middle ++ till)
  running : ∀ m ∈ moments middle, m.desk.test = some (testOf s task fresh keywords)
  kept : ∀ m ∈ since ++ moments middle ++ till, m.event.1 ≠ toDesk .forgetResults
  asked : ∀ m ∈ since ++ moments middle ++ till, ∃ o : Operation, o.Asked m.event.1

theorem moments_append (acts acts' : List Act) :
    moments (acts ++ acts') = moments acts ++ moments acts' := List.flatMap_append

theorem moments_cons (a : Act) (acts : List Act) :
    moments (a :: acts) = a.moments ++ moments acts := rfl

variable {before middle after : List Act} {task : Task} {fresh id : String}
  {started last : List Moment} {ended : Except Error Report}

/-- What is installed neither ends a test nor resets the results. -/
theorem install_keeps {tree : List Block} {t : List surroundings.Event}
    (ran : Ran (install tree) t ()) :
    ∀ ev ∈ t, ev.1 ≠ toDesk .endTest ∧ ev.1 ≠ toDesk .forgetResults :=
  ran.asked (P := fun r => r ≠ toDesk .endTest ∧ r ≠ toDesk .forgetResults)
    (install_asks (fun c => ⟨by rintro ⟨⟩, by rintro ⟨⟩⟩) (fun jobs => ⟨by rintro ⟨⟩, by rintro ⟨⟩⟩)
      tree)

theorem flush_keeps {looks : List surroundings.Event} {n : Nat} (ran : Ran flush looks n) :
    ∀ ev ∈ looks, ev.1 ≠ toDesk .forgetResults := by
  intro ev mem
  exact (ran.asked flush_asks ev mem).ne_forgetResults (by rintro _ _ ⟨⟩)

/-- Nor does anything else while a tree is installed. -/
theorem Backed.keeps_of_install {tree : List Block} {since : List Moment} (backed : Backed since)
    (installed : Ran (install tree) (own 0 since) ()) :
    ∀ m ∈ since, m.event.1 ≠ toDesk .endTest ∧ m.event.1 ≠ toDesk .forgetResults :=
  backed.all (P := fun r => r ≠ toDesk .endTest ∧ r ≠ toDesk .forgetResults)
    (fun _ mild => ⟨mild.ne_endTest, mild.ne_forgetResults⟩) (install_keeps installed)

theorem Backed.kept_of_flush {till : List Moment} {looks : List surroundings.Event} {n : Nat}
    {test : Option Test} (backed : Backed till)
    (flushing : own 0 till = ⟨toDesk .endTest, test⟩ :: looks) (flushed : Ran flush looks n) :
    ∀ m ∈ till, m.event.1 ≠ toDesk .forgetResults := by
  refine backed.all (P := (· ≠ toDesk .forgetResults)) (fun r => Mild.ne_forgetResults) ?_
  intro ev mine
  rw [flushing] at mine
  rcases List.mem_cons.mp mine with rfl | mine
  · rintro ⟨⟩
  · exact flush_keeps flushed ev mine

theorem Course.stretch
    (course : Course s (before ++ ⟨.begin task fresh, .ok id, started⟩ ::
      (middle ++ ⟨.finish, ended, last⟩ :: after)) d)
    (going : ∀ a ∈ middle, a.operation ≠ .finish) :
    Nonempty (Stretch s task fresh started middle last ended) := by
  have backed := course.backed
  have p := course.passes
  have front₁ : Ran (startTest s task fresh).run (own 0 started) (.ok id) :=
    course.front ⟨.begin task fresh, .ok id, started⟩ (by simp)
  have front₃ : Ran endTest.run (own 0 last) ended := course.front ⟨.finish, ended, last⟩ (by simp)
  have asked₁ : ∀ m ∈ started, Operation.Asked (.begin task fresh) m.event.1 := by
    intro m mem
    exact course.asked (a := ⟨.begin task fresh, .ok id, started⟩) (by simp) mem
  have asked₃ : ∀ m ∈ last, Operation.Asked .finish m.event.1 := by
    intro m mem
    exact course.asked (a := ⟨.finish, ended, last⟩) (by simp) mem
  rw [moments_append, moments_cons, moments_append, moments_cons] at p backed
  obtain ⟨d₁, p₀, p⟩ := passes_append_iff.mp p
  obtain ⟨d₂, p₁, p⟩ := passes_append_iff.mp p
  obtain ⟨d₃, p₂, p⟩ := passes_append_iff.mp p
  obtain ⟨d₄, p₃, -⟩ := passes_append_iff.mp p
  obtain ⟨-, backed⟩ := backed.of_append
  obtain ⟨backed₁, backed⟩ := backed.of_append
  obtain ⟨backed₂, backed⟩ := backed.of_append
  obtain ⟨backed₃, -⟩ := backed.of_append
  -- The test begins, and what it installs leaves it alone.
  obtain ⟨read, keywords, earlier, atReset, since, found, reading, rfl, running₀, installed⟩ :=
    begin_split p₁ backed₁ front₁
  obtain ⟨q₀, d₀, takes, q₁⟩ := Passes.split p₁
  obtain rfl := (congrArg Prod.snd takes.served).symm
  have backedSince : Backed since := fun m mem => backed₁ m (by simp [mem])
  have keeps := backedSince.keeps_of_install installed
  have running₁ := (q₁.test (fun m mem => (keeps m mem).1) running₀).1
  -- While it goes on, no other begins and none ends.
  have asked : ∀ a ∈ middle, ∀ m ∈ a.moments, a.operation.Asked m.event.1 := by
    intro a there m mem
    exact course.asked (by simp [there]) mem
  obtain ⟨running₂, running⟩ := p₂.test (unended_of_asked going asked) running₁
  have kept := p₂.results_kept running₁ going asked backed₂ fun a there =>
    course.front a (by simp [there])
  -- The test ends.
  obtain ⟨till, atEnd, later, looks, n, rfl, report, flushing, flushed⟩ :=
    finish_split p₃ backed₃ running₂ front₃
  obtain ⟨q₃, -⟩ := Passes.split p₃
  have backedTill : Backed till := fun m mem => backed₃ m (by simp [mem])
  have keptTill := backedTill.kept_of_flush flushing flushed
  have askedBetween : ∀ m ∈ moments middle, ∃ o : Operation, o.Asked m.event.1 := by
    intro m mem
    obtain ⟨a, there, mem⟩ := List.mem_flatMap.mp mem
    exact ⟨_, asked a there m mem⟩
  refine ⟨{
    read, keywords, found, reading, earlier, atReset, since, begun := rfl, installed, till, atEnd,
    later, over_ := rfl, report, looks, incomplete := n, flushing, flushed, running,
    reached := ⟨_, passes_append_iff.mpr ⟨d₁, p₀, q₀⟩⟩
    passes := passes_append_iff.mpr ⟨d₃, passes_append_iff.mpr ⟨d₂, q₁, p₂⟩, q₃⟩
    backed := List.forall_mem_append.mpr
      ⟨List.forall_mem_append.mpr ⟨backedSince, backed₂⟩, backedTill⟩
    kept := List.forall_mem_append.mpr
      ⟨List.forall_mem_append.mpr ⟨fun m mem => (keeps m mem).2, kept⟩, keptTill⟩
    asked := List.forall_mem_append.mpr
      ⟨List.forall_mem_append.mpr ⟨fun m mem => ⟨_, asked₁ m (by simp [mem])⟩, askedBetween⟩,
        fun m mem => ⟨_, asked₃ m (by simp [mem])⟩⟩ }⟩

end BrowserScript.Session
