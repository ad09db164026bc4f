import BrowserScript.Proofs.Session.Course
import Mathlib

/-!
The report of a usability test sums up what its observers came to between the reset of the results
and their reading: of each source the last verdict that passes, or else the last one, or else that
it was not met yet.
-/

namespace BrowserScript.Session

open Prog
open Run (Verdict)
open Usability (Task Test Report put statementsOf notYetMet)
open Board (recordIn)

/-- What a list of verdicts says of a source. -/
def verdictOn (source : String) (vs : List Verdict) : Option Verdict :=
  vs.find? (·.source = source)

/-- The last verdict on a source. -/
def lastOn (source : String) (vs : List Verdict) : Option Verdict :=
  vs.reverse.find? (·.source = source)

/-- The last verdict on a source that passes, or else the last one. -/
def summary (source : String) (vs : List Verdict) : Option Verdict :=
  lastOn source (vs.filter (·.success)) <|> lastOn source vs

section Lists

variable {source : String} {v : Verdict} {known vs : List Verdict}

theorem verdictOn_cons :
    verdictOn source (v :: vs) = if v.source = source then some v else verdictOn source vs := by
  rw [verdictOn, List.find?_cons]
  by_cases same : v.source = source <;> simp [same, verdictOn]

theorem verdictOn_put :
    verdictOn source (put v known) =
      if v.source = source then some v else verdictOn source known := by
  induction known with
  | nil => exact verdictOn_cons
  | cons old rest ih =>
      unfold put
      by_cases here : old.source = v.source
      · rw [if_pos here, verdictOn_cons, verdictOn_cons, here]
        by_cases same : v.source = source <;> simp [same]
      · rw [if_neg here, verdictOn_cons, verdictOn_cons, ih]
        by_cases same : v.source = source
        · have other : old.source ≠ source := fun eq => here (eq.trans same.symm)
          simp [same, other]
        · simp [same]

/-- A success stays. -/
def merged (v : Verdict) : Option Verdict → Verdict
  | some old => if old.success && !v.success then old else v
  | none => v

theorem source_merged : (merged v (verdictOn v.source known)).source = v.source := by
  cases found : verdictOn v.source known with
  | none => rfl
  | some old =>
      have same : old.source = v.source := by simpa using List.find?_some found
      rw [merged]
      split
      · exact same
      · rfl

/-- A verdict is recorded by putting what it comes to with the one on its source. -/
theorem recordIn_eq_put : recordIn v known = put (merged v (verdictOn v.source known)) known := by
  induction known with
  | nil => rfl
  | cons old rest ih =>
      have named : (merged v (verdictOn v.source (old :: rest))).source = v.source :=
        source_merged
      rw [verdictOn_cons] at named ⊢
      unfold recordIn put
      rw [named]
      by_cases here : old.source = v.source
      · rw [if_pos here, if_pos here, if_pos here, merged]
      · rw [if_neg here, if_neg here, if_neg here, ih]

theorem verdictOn_recordIn :
    verdictOn source (recordIn v known) =
      if v.source = source then some (merged v (verdictOn source known))
      else verdictOn source known := by
  rw [recordIn_eq_put, verdictOn_put, source_merged]
  by_cases same : v.source = source
  · rw [if_pos same, if_pos same, same]
  · rw [if_neg same, if_neg same]

/-! ## No source twice -/

/-- No source is named twice. -/
def Distinct (vs : List Verdict) : Prop := (vs.map (·.source)).Nodup

theorem mem_sources_put {source : String} :
    source ∈ (put v known).map (·.source) ↔ source = v.source ∨ source ∈ known.map (·.source) := by
  induction known with
  | nil => simp [put]
  | cons old rest ih =>
      unfold put
      by_cases here : old.source = v.source
      · simp [here]
      · rw [if_neg here, List.map_cons, List.mem_cons, ih, List.map_cons, List.mem_cons]
        exact or_left_comm

theorem Distinct.put (distinct : Distinct known) : Distinct (put v known) := by
  induction known with
  | nil => exact List.nodup_singleton _
  | cons old rest ih =>
      obtain ⟨fresh, others⟩ := List.nodup_cons.mp distinct
      unfold Usability.put
      by_cases here : old.source = v.source
      · rw [if_pos here]
        refine List.nodup_cons.mpr ⟨?_, others⟩
        show v.source ∉ rest.map (·.source)
        rw [← here]
        exact fresh
      · rw [if_neg here]
        refine List.nodup_cons.mpr ⟨?_, ih others⟩
        rw [mem_sources_put]
        exact not_or.mpr ⟨here, fresh⟩

theorem Distinct.recordIn (distinct : Distinct known) : Distinct (recordIn v known) := by
  rw [recordIn_eq_put]
  exact distinct.put

/-! ## What is known after a series of verdicts -/

theorem lastOn_concat :
    lastOn source (vs ++ [v]) = if v.source = source then some v else lastOn source vs := by
  rw [lastOn, List.reverse_append]
  exact verdictOn_cons

theorem lastOn_passing_success {o : Verdict}
    (last : lastOn source (vs.filter (·.success)) = some o) : o.success := by
  have mem := List.mem_reverse.mp (List.mem_of_find?_eq_some last)
  exact (List.mem_filter.mp mem).2

/-- Where nothing passes, the last verdict does not. -/
theorem lastOn_success_of_none {o : Verdict}
    (none : lastOn source (vs.filter (·.success)) = none) (last : lastOn source vs = some o) :
    o.success = false := by
  by_contra passes
  have mem := List.mem_reverse.mp (List.mem_of_find?_eq_some last)
  have same := List.find?_some last
  refine List.find?_eq_none.mp none o ?_ same
  exact List.mem_reverse.mpr (List.mem_filter.mpr ⟨mem, by simpa using passes⟩)

theorem summary_concat :
    summary source (vs ++ [v]) =
      if v.source = source then some (merged v (summary source vs)) else summary source vs := by
  by_cases same : v.source = source
  · rw [if_pos same, summary, lastOn_concat, if_pos same, List.filter_append]
    cases passes : v.success with
    | true =>
        have merges : merged v (summary source vs) = v := by
          cases summary source vs <;> simp [merged, passes]
        simp [passes, lastOn_concat, same, merges]
    | false =>
        rw [summary]
        cases passing : lastOn source (vs.filter (·.success)) with
        | some o =>
            have success := lastOn_passing_success passing
            simp [passes, passing, merged, success]
        | none =>
            cases last : lastOn source vs with
            | none => simp [passes, passing, merged]
            | some o =>
                have fails := lastOn_success_of_none passing last
                simp [passes, passing, merged, fails]
  · have others : lastOn source ((vs ++ [v]).filter (·.success)) =
        lastOn source (vs.filter (·.success)) := by
      cases passes : v.success <;> simp [List.filter_append, passes, lastOn_concat, same]
    rw [summary, others, lastOn_concat, if_neg same, if_neg same, summary]

theorem verdictOn_foldl_recordIn :
    verdictOn source (vs.foldl (fun known v => recordIn v known) []) = summary source vs := by
  induction vs using List.reverseRecOn with
  | nil => rfl
  | append_singleton vs v ih =>
      rw [List.foldl_append, List.foldl_cons, List.foldl_nil, verdictOn_recordIn, ih,
        summary_concat]

theorem distinct_foldl_recordIn : Distinct (vs.foldl (fun known v => recordIn v known) []) := by
  induction vs using List.reverseRecOn with
  | nil => exact List.nodup_nil
  | append_singleton vs v ih =>
      rw [List.foldl_append]
      exact ih.recordIn

theorem verdictOn_foldl_put (distinct : Distinct vs) :
    verdictOn source (vs.foldl (fun known v => put v known) known) =
      (verdictOn source vs <|> verdictOn source known) := by
  induction vs generalizing known with
  | nil => rfl
  | cons v rest ih =>
      obtain ⟨fresh, others⟩ := List.nodup_cons.mp distinct
      rw [List.foldl_cons, ih others, verdictOn_put, verdictOn_cons]
      by_cases same : v.source = source
      · have none : verdictOn source rest = none := by
          refine List.find?_eq_none.mpr fun other mem eq => fresh ?_
          show v.source ∈ _
          rw [same, ← of_decide_eq_true eq]
          exact List.mem_map_of_mem mem
        simp [none, same]
      · simp [same]

theorem distinct_foldl_put (distinct : Distinct known) :
    Distinct (vs.foldl (fun known v => put v known) known) := by
  induction vs generalizing known with
  | nil => exact distinct
  | cons v rest ih => exact ih distinct.put

/-! ## The statements of a script -/

/-- The sources of the verify commands of a tree. -/
def sources (tree : List Block) : List String :=
  ((Block.preorderAll tree).filter (·.isVerify)).map (·.src)

/-- What is said of a statement that nobody looked at. -/
def placeholder (source : String) : Verdict := ⟨source, false, notYetMet⟩

theorem verdictOn_foldl_placeholder (cs : List Command) :
    verdictOn source (cs.foldl (fun known c => put (placeholder c.src) known) known) =
      if source ∈ cs.map (·.src) then some (placeholder source) else verdictOn source known := by
  induction cs generalizing known with
  | nil => rfl
  | cons c rest ih =>
      rw [List.foldl_cons, ih, verdictOn_put, List.map_cons]
      by_cases later : source ∈ rest.map (·.src)
      · simp [later]
      · by_cases same : c.src = source
        · simp [placeholder, same]
        · simp [placeholder, same, later, Ne.symm same]

theorem verdictOn_statementsOf (tree : List Block) :
    verdictOn source (statementsOf tree) =
      if source ∈ sources tree then some (placeholder source) else none :=
  verdictOn_foldl_placeholder _

theorem distinct_statementsOf (tree : List Block) : Distinct (statementsOf tree) := by
  unfold statementsOf
  induction (Block.preorderAll tree).filter (·.isVerify) using List.reverseRecOn with
  | nil => exact List.nodup_nil
  | append_singleton cs c ih =>
      rw [List.foldl_append]
      exact ih.put

end Lists

/-! ## The results of a history -/

/-- The verdicts that observers come to. -/
def verdicts (h : List Moment) : List Verdict := h.filterMap fun m => m.verdict?.map (·.2)

theorem verdicts_cons (m : Moment) (h : List Moment) :
    verdicts (m :: h) = verdicts [m] ++ verdicts h := List.filterMap_append (l := [m])

theorem results_of_settling {i : Nat} {ev : surroundings.Event} {d : Desk} {key : String}
    {found : Verification.Outcome} (settling : settling? ev.1 = some (key, found)) :
    (d.settle key found).2.board.results =
      (verdicts [⟨i, d, ev⟩]).foldl (fun known v => recordIn v known) d.board.results := by
  rw [board_settle, Board.results_settle]
  simp only [verdicts, List.filterMap_cons, List.filterMap_nil, verdict?_of_settling settling,
    Option.map_map]
  cases (d.board.settle key found).1 <;> rfl

theorem results_of_other {i : Nat} {ev : surroundings.Event} {d d' : Desk}
    (other : settling? ev.1 = none) (same : d'.board.results = d.board.results) :
    d'.board.results =
      (verdicts [⟨i, d, ev⟩]).foldl (fun known v => recordIn v known) d.board.results := by
  simp only [verdicts, List.filterMap_cons, List.filterMap_nil, verdict?_of_other other]
  exact same

theorem Takes.results {ev : surroundings.Event} {d d' : Desk} (i : Nat) (takes : Takes d ev d')
    (kept : ev.1 ≠ toDesk .forgetResults) :
    d'.board.results =
      (verdicts [⟨i, d, ev⟩]).foldl (fun known v => recordIn v known) d.board.results := by
  cases takes.effect with
  | reported key satisfied found => exact results_of_settling rfl
  | elsewhere _ notSettling board => exact results_of_other notSettling (by rw [board])
  | served r =>
      cases r with
      | settle key found => exact results_of_settling rfl
      | forgetResults => exact absurd rfl kept
      | claim c => exact results_of_other rfl (Board.results_claim ..)
      | activate key probe watch => exact results_of_other rfl (Board.results_activate ..)
      | beginTest t =>
          obtain ⟨test, eq⟩ := serve_beginTest t d
          rw [eq]
          exact results_of_other rfl rfl
      | tell | stopWatches | outstanding | forgetStatements | results | status | running | test
      | endTest => exact results_of_other rfl rfl

theorem Passes.results {d d' : Desk} {h : List Moment} (p : Passes d h d')
    (kept : ∀ m ∈ h, m.event.1 ≠ toDesk .forgetResults) :
    d'.board.results =
      (verdicts h).foldl (fun known v => recordIn v known) d.board.results := by
  induction p with
  | nil d => rfl
  | @cons d d₁ d₂ ev h who takes rest ih =>
      have first := takes.results who (kept _ (List.mem_cons_self ..))
      rw [ih fun m mem => kept m (List.mem_cons_of_mem _ mem), first,
        verdicts_cons ⟨who, d, ev⟩ h, List.foldl_append]

/-! ## The report -/

section Report

variable {s : Settings} {before middle after : List Act} {task : Task} {fresh id : String}
  {started last : List Moment} {ended : Except Error Report} {d : Desk}

/-- What a test that began with an empty memory reports of a source. -/
theorem verdictOn_report (test : Usability.Test) (vs : List Verdict) (source : String) :
    verdictOn source
        (test.report (vs.foldl (fun known v => recordIn v known) [])).statements =
      (summary source vs <|> verdictOn source test.statements) := by
  rw [Usability.Test.report, verdictOn_foldl_put distinct_foldl_recordIn, verdictOn_foldl_recordIn]

theorem Stretch.verdictOn_report (st : Stretch s task fresh started middle last ended)
    (source : String) :
    verdictOn source ((testOf s task fresh st.keywords).report st.atEnd.board.results).statements =
      (summary source (verdicts (st.since ++ moments middle ++ st.till)) <|>
        if source ∈ sources (Script.parse st.keywords s.commandTimeout task.script) then
          some (placeholder source)
        else none) := by
  rw [st.passes.results st.kept, Session.verdictOn_report]
  show (summary source _ <|> verdictOn source (statementsOf _)) = _
  rw [verdictOn_statementsOf]

/-- However a usability test goes, its report names each source once. It says of a source the last
verdict that passes among those its observers came to between the reset of the results and their
reading, or else the last of these verdicts, or else, of a verify command of the script, that it
was not met yet. These verdicts were told in that time, beside what runs told. -/
theorem report_summarises
    (course : Course s (before ++ ⟨.begin task fresh, .ok id, started⟩ ::
      (middle ++ ⟨.finish, ended, last⟩ :: after)) d)
    (going : ∀ a ∈ middle, a.operation ≠ .finish) :
    ∃ read keywords earlier atReset since till atEnd later report,
      Ran Session.keywords.run read (.ok keywords) ∧ read <+: own 0 started ∧
      started = earlier ++ ⟨0, atReset, ⟨toDesk .forgetResults, ()⟩⟩ :: since ∧
      last = till ++ ⟨0, atEnd, ⟨toDesk .results, atEnd.board.results⟩⟩ :: later ∧
      let during := since ++ moments middle ++ till
      atEnd.told = (during.filterMap Moment.told?).reverse ++ atReset.told ∧
      ended = .ok report ∧ (report.statements.map (·.source)).Nodup ∧
      ∀ source, verdictOn source report.statements =
        (summary source (verdicts during) <|>
          if source ∈ sources (Script.parse keywords s.commandTimeout task.script) then
            some (placeholder source)
          else none) := by
  obtain ⟨st⟩ := course.stretch going
  refine ⟨st.read, st.keywords, st.earlier, st.atReset, st.since, st.till, st.atEnd, st.later, _,
    st.found, st.reading, st.begun, st.over_, st.passes.told, st.report, ?_, st.verdictOn_report⟩
  exact distinct_foldl_put (distinct_statementsOf _)

end Report

/-! A run tells a verdict of its own while a test goes on that watches nothing. -/

namespace Overheard

def source : String := "verify title contains 'Shop'"

def command : Command :=
  { line := 0, code := ["verify", "\"Shop\""], src := source, timeout := 5000,
    verifyType := some .title, verifyOperator := some .contains, verifyExpected := some "Shop" }

set_option maxRecDepth 4000 in
theorem tree_eq (keywords : KeywordSet) :
    Script.parse keywords 5000 source = [.node command []] := by cbv

theorem empty_eq (keywords : KeywordSet) : Script.parse keywords 5000 "" = [] := by cbv

def task : Task := { id := some "t", name := "Buy", tester := "Ann", script := "" }

def test : Test := .ofTask task "t" []

def verdict : Verdict := ⟨source, true, "Verification passed: Page title contains \"Shop\""⟩

def report : Report := test.report []

def kept (q : Store.Request) (x : q.Result) : surroundings.Event := ⟨toStore q, .ok x⟩

def asked (r : Desk.Request) (x : r.Result) : Nat × surroundings.Event := (0, ⟨toDesk r, x⟩)

def reading : List (Nat × surroundings.Event) :=
  [(0, ⟨toPage .url, .error (.backend "")⟩), (0, kept .sharedKeywords [])]

def beginning : List (Nat × surroundings.Event) := reading ++
  [asked (.beginTest test) (.ok ()), asked .forgetResults (), (0, ⟨.inr (.gather []), ()⟩)]

def running : List (Nat × surroundings.Event) := reading ++
  [(0, kept (.setTree [.node command []]) ()), (0, kept .clearCursor ()),
    (0, kept (.setStopFlag false) ()), (0, kept .stopFlag false),
    (0, ⟨.inr (.clock (.sleep 5000)), ()⟩), (0, ⟨toPage .title, .ok "Shop"⟩),
    asked (.tell (.log 1 "✅ Verification passed: Page title contains \"Shop\"")) (),
    asked (.tell (.verdict verdict)) (), asked (.tell (.progress 1 1)) (),
    asked (.tell (.log 1 "Performed 'verify' on 'Shop'")) (), (0, kept (.setCursor 0) ())]

def ending : List (Nat × surroundings.Event) :=
  [asked .endTest (some test), asked .stopWatches (), asked .outstanding [], asked .stopWatches (),
    asked .forgetStatements (), asked .results []]

def begun : Desk := afterAll {} beginning

def ran : Desk := afterAll begun running

def run : Act := ⟨.run source 0, .ok .completed, chronicle begun running⟩

def acts : List Act := [⟨.begin task "", .ok "t", chronicle {} beginning⟩, run,
  ⟨.finish, .ok report, chronicle ran ending⟩]

theorem ran_parse_blank (script : String) :
    Ran (parse {} script).run (reading.map (·.2)) (.ok (Script.parse ⟨[], []⟩ 5000 script)) :=
  .ask _ (.ask _ (.done _))

theorem ran_begin : Ran (startTest {} task "").run (beginning.map (·.2)) (.ok "t") := by
  have parsed := ran_parse_blank ""
  rw [empty_eq] at parsed
  exact ran_bind_of_ok parsed (.ask _ (.ask _ (.ask _ (.done _))))

theorem ran_run : Ran (runScript {} source 0).run (running.map (·.2)) (.ok .completed) := by
  have parsed := ran_parse_blank source
  rw [tree_eq] at parsed
  refine ran_bind_of_ok parsed (.ask _ (.ask _ (.ask _ (.ask _ ?_))))
  exact .ask _ (.ask _ (.ask _ (.ask _ (.ask _ (.ask _ (.ask _ (.done _)))))))

theorem ran_end (test : Test) : Ran endTest.run
    [⟨toDesk .endTest, some test⟩, ⟨toDesk .stopWatches, ()⟩, ⟨toDesk .outstanding, []⟩,
      ⟨toDesk .stopWatches, ()⟩, ⟨toDesk .forgetStatements, ()⟩, ⟨toDesk .results, []⟩]
    (.ok (test.report [])) :=
  .ask _ (.ask _ (.ask _ (.ask _ (.ask _ (.ask _ (.done _))))))

theorem moments_acts : moments acts = chronicle {} (beginning ++ running ++ ending) := rfl

theorem fit : FitAll {} (beginning ++ running ++ ending) := by
  refine ⟨trivial, trivial, rfl, rfl, trivial, ?_⟩
  refine ⟨trivial, trivial, trivial, trivial, trivial, trivial, trivial, trivial, ?_⟩
  refine ⟨rfl, rfl, rfl, rfl, trivial, ?_⟩
  refine ⟨rfl, rfl, ?_, rfl, rfl, rfl, trivial⟩
  exact List.mergeSort_nil

theorem course : Course {} acts (afterAll {} (beginning ++ running ++ ending)) where
  passes := by
    rw [moments_acts]
    exact passes_chronicle fit
  front := by
    refine List.forall_mem_cons.mpr ⟨ran_begin, ?_⟩
    refine List.forall_mem_cons.mpr ⟨ran_run, ?_⟩
    exact List.forall_mem_cons.mpr ⟨ran_end test, List.forall_mem_nil _⟩
  background := by
    intro i other
    refine ⟨.setup "" command, ?_⟩
    rw [moments_acts, own_chronicle]
    have front : ∀ e ∈ beginning ++ running ++ ending, e.1 = 0 := by decide
    have none : (beginning ++ running ++ ending).filter (·.1 = i) = [] := by
      refine List.filter_eq_nil_iff.mpr ?_
      intro e mem
      simpa [front e mem] using other.symm
    rw [none]
    exact .start _

end Overheard

/-- The verdicts that the followers were told. -/
def heard (h : List Moment) : List Verdict :=
  (h.filterMap Moment.told?).filterMap Run.Event.verdict?

theorem report_omits_verdict_of_run :
    (∃ d, Course {} Overheard.acts d) ∧
    Overheard.run ∈ Overheard.acts ∧
    summary Overheard.source (heard Overheard.run.moments) = some Overheard.verdict ∧
    heard (moments Overheard.acts) = heard Overheard.run.moments ∧
    verdictOn Overheard.source Overheard.report.statements = none :=
  ⟨⟨_, Overheard.course⟩, by simp [Overheard.acts], rfl, rfl, rfl⟩

theorem report_summarises_without_verdicts :
    ∃ since till, ( Overheard.report.statements.map (·.source)).Nodup ∧
      ∀ source, verdictOn source Overheard.report.statements =
        summary source (verdicts (since ++ moments [Overheard.run] ++ till)) := by
  have course : Course {} ([] ++ ⟨.begin Overheard.task "", .ok "t", _⟩ ::
    ([Overheard.run] ++ ⟨.finish, .ok Overheard.report, _⟩ :: [])) _ := Overheard.course
  have going : ∀ a ∈ [Overheard.run], a.operation ≠ .finish := by simp [Overheard.run]
  obtain ⟨_, keywords, _, _, since, till, _, _, report, -, -, -, -, -, eq, distinct, same⟩ :=
    report_summarises course going
  cases eq
  refine ⟨since, till, distinct, fun source => ?_⟩
  have empty : Script.parse keywords 5000 Overheard.task.script = [] := Overheard.empty_eq keywords
  have unnamed : source ∉ sources (Script.parse keywords 5000 Overheard.task.script) := by
    rw [empty]
    exact List.not_mem_nil
  rw [same source]
  cases summary source (verdicts (since ++ moments [Overheard.run] ++ till)) with
  | some v => rfl
  | none => exact if_neg unnamed

end BrowserScript.Session
