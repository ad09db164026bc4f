import Mathlib
import BrowserScript.Proofs.Program.Transcript
import BrowserScript.Proofs.Store.Files
import BrowserScript.Proofs.Store.Ledger

/-!
Updates of one document by several stores. Each store lets its own updates wait for one another,
but not for those of other stores. The files hold what the ledgers say, so the schedule alone
decides whether an update can be lost.
-/

namespace BrowserScript.Store.File

open Prog
open Schedule (endings)

/-- The calls that change the document. -/
inductive Update
  | setCursor (line : Nat)
  | clearCursor
  | setStopFlag (stop : Bool)
  | setTree (tree : List Block)
  | importKeywords (tables : KeywordTables)

namespace Update

def program (path : String) : Update → Prog signature (Except Error Unit)
  | .setCursor line => (serve path (.setCursor line)).run
  | .clearCursor => (serve path .clearCursor).run
  | .setStopFlag stop => (serve path (.setStopFlag stop)).run
  | .setTree tree => (serve path (.setTree tree)).run
  | .importKeywords tables => (File.importKeywords path tables).run

def change : Update → State → State
  | .setCursor line, s => { s with cursor := some line }
  | .clearCursor, s => { s with cursor := none }
  | .setStopFlag stop, s => { s with stop }
  | .setTree tree, s => { s with tree }
  | .importKeywords tables, s => { s with keywords := s.keywords.merge tables }

end Update

/-- The state in a file, if there is one. -/
def stateOf (text : Option String) : State := (text.map State.ofText).getD {}

/-- What is left of an update when its draft is written. -/
def moving (path : String) : Prog signature (Except Error Unit) :=
  .ask (.rename (temporary path) path) .done

/-- What is left of an update when it has read the document and made this state of it. -/
def writing (path : String) (s : State) : Prog signature (Except Error Unit) :=
  .ask (.write (temporary path) s.toText) (orEnd fun _ => moving path)

theorem load_run (path : String) :
    (load path).run = .ask (.read path) (orEnd fun text => .done (.ok (stateOf text))) := by
  show Prog.ask _ _ = _
  congr 1
  funext text
  cases text <;> rfl

theorem save_run (path : String) (s : State) : (save path s).run = writing path s := by
  show Prog.ask _ _ = Prog.ask _ _
  congr 1
  funext written
  cases written <;> rfl

theorem update_run (path : String) (change : State → State) :
    (update path change).run =
      .ask (.read path) (orEnd fun text => writing path (change (stateOf text))) := by
  rw [update, run_bind_eq, load_run]
  show Prog.ask _ _ = _
  congr 1
  funext text
  cases text with
  | error e => rfl
  | ok text => exact save_run path _

theorem Update.program_eq (path : String) (u : Update) :
    u.program path = .ask (.read path) (orEnd fun text => writing path (u.change (stateOf text))) := by
  have updates : u.program path = (update path u.change).run := by
    cases u with
    | importKeywords tables => rfl
    | _ => exact congrArg ExceptT.run (bind_pure_unit (m := Access))
  rw [updates, update_run]

/-! ## Ledgers and files -/

def applied (us : Nat → Update) (order : List Nat) (s : State) : State :=
  order.foldl (fun s i => (us i).change s) s

/-- Updates one after another, each of which reads what the one before it wrote. -/
def rewritten (us : Nat → Update) (order : List Nat) (s : State) : State :=
  order.foldl (fun s i => State.ofText ((us i).change s).toText) s

theorem rewritten_concat (us : Nat → Update) (order : List Nat) (i : Nat) (s : State) :
    rewritten us (order ++ [i]) s =
      State.ofText ((us i).change (rewritten us order s)).toText := by
  simp [rewritten]

theorem applied_concat (us : Nat → Update) (order : List Nat) (i : Nat) (s : State) :
    applied us (order ++ [i]) s = (us i).change (applied us order s) := by
  simp [applied]

/-- A state that is read as it was written. -/
def Reads (s : State) : Prop := State.ofText s.toText = s

theorem rewritten_eq_applied {us : Nat → Update} {s : State}
    (h : ∀ order, Reads (applied us order s)) (order : List Nat) :
    rewritten us order s = applied us order s := by
  induction order using List.reverseRecOn with
  | nil => rfl
  | append_singleton order i ih =>
      rw [rewritten_concat, ih, ← applied_concat]
      exact h (order ++ [i])

variable {path : String} {us : Nat → Update} {s₀ : State}

def remaining (path : String) (us : Nat → Update) (s₀ : State) (i : Nat) :
    Phase → Prog signature (Except Error Unit)
  | .waiting => (us i).program path
  | .loaded l => writing path ((us i).change (rewritten us l s₀))
  | .written => moving path
  | .ended => .done (.ok ())
  | .failed => .done (.error missing)

/-- The files hold what the ledgers say. A draft that was there before matters to nobody. -/
structure Holds (path : String) (us : Nat → Update) (s₀ : State) (g : Ledgers)
    (c : Interleaved signature Files (Except Error Unit)) : Prop where
  clear : c.shared.Clear path
  document : stateOf (c.shared.text? path) = rewritten us g.document s₀
  draft : ∀ l, g.draft = some l →
    ∃ text, c.shared.text? (temporary path) = some text ∧ State.ofText text = rewritten us l s₀
  noDraft : ∀ i, g.phase i = .written → g.draft = none → c.shared.text? (temporary path) = none
  programs : ∀ i, c.programs i = remaining path us s₀ i (g.phase i)

theorem programs_update {programs : Nat → Prog signature (Except Error Unit)} {phase : Nat → Phase}
    {i : Nat} {new : Phase} {rest : Prog signature (Except Error Unit)}
    (h : ∀ j, programs j = remaining path us s₀ j (phase j))
    (hi : rest = remaining path us s₀ i new) (j : Nat) :
    Function.update programs i rest j =
      remaining path us s₀ j (Function.update phase i new j) := by
  by_cases same : j = i
  · subst same
    rw [Function.update_self, Function.update_self, hi]
  · rw [Function.update_of_ne same, Function.update_of_ne same, h]

theorem Holds.step {g : Ledgers} {c : Interleaved signature Files (Except Error Unit)}
    (h : Holds path us s₀ g c) (i : Nat) :
    Holds path us s₀ (g.step i) (c.step perform i) := by
  have program := h.programs i
  have next := Ledgers.step_spec g i
  generalize g.step i = g' at next
  cases next with
  | read waiting =>
      rw [waiting, remaining, Update.program_eq] at program
      rw [Interleaved.step_ask program (perform_read h.clear.document)]
      refine ⟨h.clear, h.document, h.draft, fun j hj => ?_, ?_⟩
      · obtain ⟨-, hl⟩ | ⟨-, hj⟩ := Ledgers.of_update hj
        · cases hl
        · exact h.noDraft j hj
      · refine programs_update h.programs ?_
        rw [remaining, ← h.document]
        rfl
  | @write l loaded =>
      rw [loaded, remaining, writing] at program
      rw [Interleaved.step_ask program (perform_write h.clear.draft _)]
      refine ⟨h.clear.put_draft _, ?_, fun l' hl => ?_, nofun, programs_update h.programs rfl⟩
      · rw [← h.document]
        exact congrArg stateOf (Files.text?_put_of_ne (temporary_ne path).symm)
      · cases hl
        refine ⟨_, Files.text?_put_self .., ?_⟩
        rw [rewritten_concat]
  | @rename l written draft =>
      obtain ⟨text, found, reads⟩ := h.draft l draft
      rw [written, remaining, moving] at program
      rw [Interleaved.step_ask program (perform_rename h.clear.document found)]
      refine ⟨(h.clear.remove _).put_document _, ?_, nofun, fun j hj _ => ?_,
        programs_update h.programs rfl⟩
      · rw [← reads]
        exact congrArg stateOf (Files.text?_put_self ..)
      · exact (Files.text?_put_of_ne (temporary_ne path)).trans (Files.text?_remove_self ..)
  | fail written draft =>
      rw [written, remaining, moving] at program
      rw [Interleaved.step_ask program (perform_rename_missing path (h.noDraft i written draft))]
      exact ⟨h.clear, h.document, h.draft, fun _ _ _ => h.noDraft i written draft,
        programs_update h.programs rfl⟩
  | idle ended =>
      have done : ∃ r, c.programs i = .done r := by
        cases phase : g.phase i with
        | ended | failed => exact ⟨_, by rw [program, phase, remaining]⟩
        | _ => rw [phase] at ended; cases ended
      obtain ⟨r, hr⟩ := done
      have same : c.step perform i = c := Interleaved.step_done hr
      rwa [same]

def interleaved (path : String) (us : Nat → Update) (files : Files) (schedule : List Nat) :
    Interleaved signature Files (Except Error Unit) :=
  Interleaved.run perform ⟨files, fun i => (us i).program path⟩ schedule

theorem holds (us : Nat → Update) (files : Files) (clear : files.Clear path) (p : List Nat) :
    Holds path us (stateOf (files.text? path)) (Ledgers.after p) (interleaved path us files p) := by
  induction p using List.reverseRecOn with
  | nil => exact ⟨clear, rfl, nofun, nofun, fun _ => rfl⟩
  | append_singleton p i ih =>
      unfold interleaved Interleaved.run
      rw [Ledgers.after_concat, List.foldl_append]
      exact ih.step i

/-- What loading the document gives. -/
def loaded (path : String) (files : Files) : Except Error State :=
  (((load path).run.run perform).run files).1

theorem loaded_eq {files : Files} (h : files.Clear path) :
    loaded path files = .ok (stateOf (files.text? path)) := by
  rw [loaded, load_run]
  have read := perform_read h.document
  show (StateT.run (m := Id) (perform (.read path) >>= fun text => Prog.run (S := signature) perform
    (orEnd (fun text => .done (.ok (stateOf text))) text)) files).1 = _
  rw [StateT.run_bind, read]
  rfl

/-! ## Stores -/

/-- A schedule of updates through stores: each of the updates has three turns, and those of one
store wait for one another. -/
structure Admissible (store : Nat → Nat) (updates : Nat) (schedule : List Nat) : Prop where
  turns : ∀ i, schedule.count i = if i < updates then 3 else 0
  locked : ∀ p, p <+: schedule → ∀ i j, Ledgers.InProgress p i → Ledgers.InProgress p j →
    store i = store j → i = j

/-- Updates of different stores are never in progress at the same time. -/
def Apart (store : Nat → Nat) (schedule : List Nat) : Prop :=
  ∀ p, p <+: schedule → ∀ i j, Ledgers.InProgress p i → Ledgers.InProgress p j →
    store i = store j

namespace Admissible

variable {store : Nat → Nat} {n : Nat} {schedule : List Nat}

theorem oneByOne_iff (h : Admissible store n schedule) :
    Ledgers.OneByOne schedule ↔ Apart store schedule :=
  ⟨fun one p hp i j hi hj => congrArg store (one p hp i j hi hj),
    fun apart p hp i j hi hj => h.locked p hp i j hi hj (apart p hp i j hi hj)⟩

theorem finished (h : Admissible store n schedule) : Ledgers.Finished schedule := by
  rintro i ⟨begun, notOver⟩
  rw [h.turns i] at begun notOver
  split at begun <;> simp_all

theorem mem_endings_iff (h : Admissible store n schedule) {i : Nat} :
    i ∈ endings 3 schedule ↔ i < n := by
  rw [Schedule.mem_endings_iff (by decide), h.turns i]
  split <;> simp_all

theorem endings_perm (h : Admissible store n schedule) :
    (endings 3 schedule).Perm (List.range n) := by
  refine (List.perm_ext_iff_of_nodup (Schedule.nodup_endings (by decide) _) List.nodup_range).mpr ?_
  intro i
  rw [h.mem_endings_iff, List.mem_range]

end Admissible

/-! ## An update that is missed -/

/-- A stop request among updates that change nothing else. -/
def stopAmong (m i : Nat) : Update := if i = m then .setStopFlag true else .clearCursor

theorem applied_stopAmong (m : Nat) (order : List Nat) :
    applied (stopAmong m) order {} = { stop := decide (m ∈ order) } := by
  induction order using List.reverseRecOn with
  | nil => rfl
  | append_singleton order i ih =>
      rw [applied_concat, ih, stopAmong]
      by_cases same : i = m
      · simp [same, Update.change]
      · simp [same, Ne.symm same, Update.change]

set_option maxRecDepth 10000 in
theorem reads_stopAmong (m : Nat) (order : List Nat) :
    Reads (applied (stopAmong m) order {}) := by
  rw [applied_stopAmong]
  cases decide (m ∈ order) with
  | false => cbv
  | true => cbv

/-! ## What becomes of updates -/

/-- All updates ended well, and the document is what some order of them makes of the state. -/
def Sequential (path : String) (us : Nat → Update) (n : Nat) (files after : Files)
    (programs : Nat → Prog signature (Except Error Unit)) : Prop :=
  (∀ i < n, programs i = .done (.ok ())) ∧
    ∃ order, order.Perm (List.range n) ∧
      loaded path after = .ok (applied us order (stateOf (files.text? path)))

variable {store : Nat → Nat} {n : Nat} {schedule : List Nat}

theorem updates_of_oneByOne (one : Ledgers.OneByOne schedule) (us : Nat → Update) {files : Files}
    (clear : files.Clear path) {p : List Nat} (hp : p <+: schedule) :
    (∀ i, 3 ≤ p.count i → (interleaved path us files p).programs i = .done (.ok ())) ∧
      loaded path (interleaved path us files p).shared =
        .ok (rewritten us (endings 3 p) (stateOf (files.text? path))) := by
  have complete := Ledgers.complete_of_oneByOne one p hp
  have hold := holds us files clear p
  constructor
  · intro i hi
    rw [hold.programs]
    have turns := Ledgers.turns_after p i
    cases phase : (Ledgers.after p).phase i with
    | ended => rfl
    | failed => exact absurd phase (complete.noFailure i)
    | _ =>
        rw [phase, Phase.turns] at turns
        omega
  · rw [loaded_eq hold.clear, hold.document, complete.document]

/-- Where two updates are in progress at the same time, a stop request can be the one that is
lost. -/
theorem not_sequential_of_overlap (path : String) (sched : Admissible store n schedule)
    (overlap : ¬ Ledgers.OneByOne schedule) :
    ∃ m, ¬ Sequential path (stopAmong m) n []
      (interleaved path (stopAmong m) [] schedule).shared
      (interleaved path (stopAmong m) [] schedule).programs := by
  have hold := fun m => holds (stopAmong m) [] (⟨rfl, rfl⟩ : Files.Clear [] path) schedule
  by_cases failure : ∃ i, (Ledgers.after schedule).phase i = .failed
  · obtain ⟨i, failed⟩ := failure
    refine ⟨0, ?_⟩
    rintro ⟨ended, -⟩
    have turns := Ledgers.turns_after schedule i
    rw [failed, Phase.turns, sched.turns i] at turns
    have among : i < n := by
      by_contra beyond
      rw [if_neg beyond] at turns
      cases turns
    have done := ended i among
    rw [(hold 0).programs, failed] at done
    cases done
  · obtain ⟨m, ended, lost⟩ :=
      Ledgers.exists_lost sched.finished (fun i hi => failure ⟨i, hi⟩) overlap
    refine ⟨m, ?_⟩
    rintro ⟨-, order, perm, found⟩
    have fresh : stateOf (Files.text? [] path) = {} := rfl
    rw [loaded_eq (hold m).clear, (hold m).document, fresh,
      rewritten_eq_applied (reads_stopAmong m)] at found
    have inOrder : m ∈ order :=
      perm.mem_iff.mpr (List.mem_range.mpr (sched.mem_endings_iff.mp ended))
    rw [applied_stopAmong, applied_stopAmong] at found
    have stops := congrArg State.stop (Except.ok.inj found)
    simp [lost, inOrder] at stops

/-- What becomes of the updates of several stores. They come out as some order of them would
exactly if those of different stores are never in progress at the same time. Then also, at any
time, those that ended did so well, and the document has them in this order, each as it reads what
the one before it wrote. -/
theorem sequential_iff_apart (path : String) (sched : Admissible store n schedule) :
    (Apart store schedule ↔ ∀ (us : Nat → Update) (files : Files), files.Clear path →
      (∀ order, Reads (applied us order (stateOf (files.text? path)))) →
      Sequential path us n files (interleaved path us files schedule).shared
        (interleaved path us files schedule).programs) ∧
    (Apart store schedule → ∀ (us : Nat → Update) (files : Files), files.Clear path →
      ∀ p, p <+: schedule →
        (∀ i, 3 ≤ p.count i → (interleaved path us files p).programs i = .done (.ok ())) ∧
        loaded path (interleaved path us files p).shared =
          .ok (rewritten us (endings 3 p) (stateOf (files.text? path)))) := by
  rw [← sched.oneByOne_iff]
  refine ⟨⟨fun one us files clear reads => ?_, fun sequential => ?_⟩,
    fun one us files clear p hp => updates_of_oneByOne one us clear hp⟩
  · obtain ⟨ended, document⟩ := updates_of_oneByOne one us clear (List.prefix_refl schedule)
    refine ⟨fun i hi => ended i ?_, endings 3 schedule, sched.endings_perm, ?_⟩
    · rw [sched.turns i, if_pos hi]
    · rw [document, rewritten_eq_applied reads]
  · by_contra overlap
    obtain ⟨m, lost⟩ := not_sequential_of_overlap path sched overlap
    exact lost (sequential (stopAmong m) [] ⟨rfl, rfl⟩ (reads_stopAmong m))

theorem sequential_iff_apart_stop_during_update :
    (Apart id [0, 1, 1, 1, 0, 0] ↔ ∀ (us : Nat → Update) (files : Files), files.Clear "a.json" →
      (∀ order, Reads (applied us order (stateOf (files.text? "a.json")))) →
      Sequential "a.json" us 2 files (interleaved "a.json" us files [0, 1, 1, 1, 0, 0]).shared
        (interleaved "a.json" us files [0, 1, 1, 1, 0, 0]).programs) ∧
    (Apart id [0, 1, 1, 1, 0, 0] → ∀ (us : Nat → Update) (files : Files), files.Clear "a.json" →
      ∀ p, p <+: [0, 1, 1, 1, 0, 0] →
        (∀ i, 3 ≤ p.count i → (interleaved "a.json" us files p).programs i = .done (.ok ())) ∧
        loaded "a.json" (interleaved "a.json" us files p).shared =
          .ok (rewritten us (endings 3 p) (stateOf (files.text? "a.json")))) := by
  refine sequential_iff_apart "a.json" ⟨fun i => ?_, fun _ _ _ _ _ _ same => same⟩
  rcases i with _ | _ | i
  · rfl
  · rfl
  · exact List.count_eq_zero_of_not_mem (by simp)

/-- A stop request that comes and returns while a run saves its cursor is not in the document
afterwards, whatever was there before. -/
theorem stop_lost_during_save (path : String) (line : Nat) {files : Files}
    (clear : files.Clear path) :
    let us : Nat → Update := fun i => if i = 0 then .setCursor line else .setStopFlag true
    let after := interleaved path us files [0, 1, 1, 1, 0, 0]
    after.programs 1 = .done (.ok ()) ∧ loaded path after.shared =
      .ok (State.ofText { stateOf (files.text? path) with cursor := some line }.toText) := by
  intro us after
  have hold : Holds path us _ _ after := holds us files clear [0, 1, 1, 1, 0, 0]
  have document : (Ledgers.after [0, 1, 1, 1, 0, 0]).document = [0] := rfl
  refine ⟨hold.programs 1, ?_⟩
  rw [loaded_eq hold.clear, hold.document, document]
  simp only [rewritten, List.foldl_cons, List.foldl_nil, us, ↓reduceIte, Update.change]

/-! ## Updates that fail -/

/-- What steps on files do where any of them can fail. A step that failed has done nothing, but a
text that was to be written may be there in part. -/
inductive Suffers : Files → List signature.Event → Files → Prop
  | nil (files : Files) : Suffers files [] files
  | performed {files files' after : Files} {r : Request} {x : signature.Answer r}
      {t : List signature.Event} (done : (perform r).run files = (x, files'))
      (rest : Suffers files' t after) : Suffers files (⟨r, x⟩ :: t) after
  | failed {files after : Files} {r : Request} {t : List signature.Event} (e : Error)
      (rest : Suffers files t after) : Suffers files (⟨r, .error e⟩ :: t) after
  | torn {files after : Files} {path text : String} {t : List signature.Event} (part : String)
      (e : Error) (rest : Suffers (files.put path part) t after) :
      Suffers files (⟨.write path text, .error e⟩ :: t) after

variable {path : String} {t : List signature.Event} {files after : Files}

theorem Suffers.of_done {r : Except Error Unit} (came : Came (.done r) t)
    (suffers : Suffers files t after) : after = files := by
  cases came
  cases suffers
  rfl

theorem moving_whole {text : String} (clear : files.Clear path)
    (draft : files.text? (temporary path) = some text) (came : Came (moving path) t)
    (suffers : Suffers files t after) :
    after.text? path = files.text? path ∨ after.text? path = some text := by
  cases came with
  | start =>
      cases suffers
      exact .inl rfl
  | ask x rest =>
      cases suffers with
      | performed done suffers =>
          cases (perform_rename clear.document draft).symm.trans done
          rw [suffers.of_done rest]
          exact .inr (Files.text?_put_self ..)
      | failed e suffers =>
          rw [suffers.of_done rest]
          exact .inl rfl

theorem writing_whole {s : State} (clear : files.Clear path) (came : Came (writing path s) t)
    (suffers : Suffers files t after) :
    after.text? path = files.text? path ∨ after.text? path = some s.toText := by
  have unchanged (text : String) :
      (files.put (temporary path) text).text? path = files.text? path :=
    Files.text?_put_of_ne (temporary_ne path).symm
  cases came with
  | start =>
      cases suffers
      exact .inl rfl
  | ask x rest =>
      cases suffers with
      | performed done suffers =>
          cases (perform_write clear.draft s.toText).symm.trans done
          rw [← unchanged s.toText]
          exact moving_whole (clear.put_draft _) (Files.text?_put_self ..) rest suffers
      | failed e suffers =>
          rw [suffers.of_done rest]
          exact .inl rfl
      | torn part e suffers =>
          rw [suffers.of_done rest]
          exact .inl (unchanged part)

/-- However far an update has come and whatever of it has failed: the document is the old one or
the new one as a whole. -/
theorem document_whole {u : Update} (clear : files.Clear path) (came : Came (u.program path) t)
    (suffers : Suffers files t after) :
    after.text? path = files.text? path ∨
      after.text? path = some (u.change (stateOf (files.text? path))).toText := by
  rw [u.program_eq path] at came
  cases came with
  | start =>
      cases suffers
      exact .inl rfl
  | ask x rest =>
      cases suffers with
      | performed done suffers =>
          cases (perform_read clear.document).symm.trans done
          exact writing_whole clear rest suffers
      | failed e suffers =>
          rw [suffers.of_done rest]
          exact .inl rfl

end BrowserScript.Store.File
