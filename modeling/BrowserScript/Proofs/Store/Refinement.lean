import BrowserScript.Proofs.Store.Document
import BrowserScript.Proofs.Store.Updates

/-!
The state in one file against a state in memory. Whatever is called and whichever updates fail on
their way, both give the same answers: what the text of the document is read as is the state in
memory, before each call and after it.
-/

namespace BrowserScript.Store.File

open Prog (orEnd run_bind_eq)

/-! ## Calls -/

/-- What a store in a file can be called for. -/
inductive Call
  | ask (r : Store.Request)
  | importKeywords (tables : KeywordTables)
  | keywordTables
  | state

namespace Call

def Result : Call → Type
  | .ask r => r.Result
  | .importKeywords _ => Unit
  | .keywordTables => KeywordTables
  | .state => State

def signature : Signature := ⟨Call, fun c => Except Error c.Result⟩

/-- How a call changes the state; none if it only reads. -/
def change? : Call → Option (State → State)
  | .ask r => r.change?
  | .importKeywords tables => some fun s => { s with keywords := s.keywords.merge tables }
  | .keywordTables | .state => none

def find (s : State) : (c : Call) → c.Result
  | .ask r => r.find s
  | .importKeywords _ => ()
  | .keywordTables => s.keywords
  | .state => s

def access (path : String) : (c : Call) → Access c.Result
  | .ask r => serve path r
  | .importKeywords tables => File.importKeywords path tables
  | .keywordTables => (·.keywords) <$> load path
  | .state => load path

/-- What it brings can be kept in a document. -/
def Fits : Call → Prop
  | .ask (.setCursor line) => line < 1 <<< 64
  | .ask (.setTree tree) => Store.Fits tree
  | _ => True

end Call

/-! ## Faults -/

/-- What can go wrong with an update after the document was read. -/
inductive Fault
  /-- The draft is not written, or not as a whole. -/
  | write (part : Option String) (e : Error)
  | rename (e : Error)

def Fault.error : Fault → Error
  | .write _ e | .rename e => e

/-- A step on files where something may go wrong. -/
def struck : Option Fault → (r : Request) → StateM Files (Except Error r.Result)
  | some (.write part e), .write path _ => do
    modify fun files => part.elim files (files.put path)
    return .error e
  | some (.rename e), .rename .. => return .error e
  | _, r => perform r

def onFile (path : String) (c : Call) (fault : Option Fault) :
    StateM Files (Except Error c.Result) :=
  (c.access path).run.run (struck fault)

/-- In memory nothing goes wrong by itself: an update that is to fail is not made. -/
def inMemory (c : Call) (fault : Option Fault) : StateM State (Except Error c.Result) :=
  match c.change?, fault with
  | some _, some fault => return .error fault.error
  | change, _ => do
    modify (change.getD id)
    return .ok (c.find (← get))

/-- Calls one after another, with what goes wrong in each. -/
def answers {σ : Type} (act : (c : Call) → Option Fault → StateM σ (Except Error c.Result))
    (calls : List (Call × Option Fault)) : StateM σ (List Call.signature.Event) :=
  calls.mapM fun (c, fault) => return ⟨c, ← act c fault⟩

/-- Without a fault, memory answers a request as the store in memory does. -/
theorem inMemory_ask (r : Store.Request) : inMemory (.ask r) none = Store.serve r := by
  unfold inMemory
  split
  · contradiction
  · rfl

variable {path : String} {files : Files} {s : State} {c : Call} {change : State → State}

theorem inMemory_of_reads (reads : c.change? = none) (fault : Option Fault) (s : State) :
    (inMemory c fault).run s = (.ok (c.find s), s) := by
  unfold inMemory
  simp only [reads]
  rfl

theorem inMemory_of_changes (changes : c.change? = some change) (s : State) :
    (inMemory c none).run s = (.ok (c.find (change s)), change s) := by
  unfold inMemory
  simp only [changes]
  rfl

theorem inMemory_of_fails (changes : c.change? = some change) (fault : Fault) (s : State) :
    (inMemory c (some fault)).run s = (.error fault.error, s) := by
  unfold inMemory
  simp only [changes]
  rfl

/-! ## What a call does on the files -/

namespace Call

theorem find_of_changes (changes : c.change? = some change) (s s' : State) :
    c.find s = c.find s' := by
  cases c with
  | ask r => cases r <;> first | rfl | cases changes
  | importKeywords tables => rfl
  | keywordTables | state => cases changes

/-- A call that only reads looks into the document once. -/
theorem access_of_reads (reads : c.change? = none) (path : String) :
    (c.access path).run =
      .ask (.read path) (orEnd fun text => .done (.ok (c.find (stateOf text)))) := by
  have found : c.access path = load path >>= fun s => pure (c.find s) := by
    cases c with
    | ask r => cases r <;> first | rfl | cases reads
    | importKeywords tables => cases reads
    | keywordTables => rfl
    | state => exact (bind_pure (m := Access) _).symm
  rw [found, run_bind_eq, load_run]
  show Prog.ask _ _ = _
  congr 1
  funext text
  cases text <;> rfl

/-- A call that changes the state rewrites the document. -/
theorem access_of_changes (changes : c.change? = some change) (path : String) :
    (c.access path).run = .ask (.read path) (orEnd fun text =>
      (writing path (change (stateOf text))).bind (orEnd fun _ => .done (.ok (c.find {})))) := by
  have found : c.access path = update path change >>= fun _ => pure (c.find {}) := by
    cases c with
    | ask r => cases r <;> cases changes <;> rfl
    | importKeywords tables =>
        cases changes
        exact (bind_pure_unit (m := Access)).symm
    | keywordTables | state => cases changes
  rw [found, run_bind_eq, update_run]
  show Prog.ask _ _ = _
  congr 1
  funext text
  cases text <;> rfl

end Call

theorem run_ask {act : (r : Request) → StateM Files (Except Error r.Result)} {α : Type}
    {r : Request} {next : Except Error r.Result → Prog signature α} {x : Except Error r.Result}
    {files' : Files} (done : (act r).run files = (x, files')) :
    StateT.run (m := Id) (Prog.run (S := signature) act (.ask r next)) files =
      StateT.run (m := Id) (Prog.run act (next x)) files' := by
  show StateT.run (m := Id) (act r >>= fun x => Prog.run act (next x)) files = _
  rw [StateT.run_bind, done]
  rfl

theorem struck_read (clear : files.Clear path) (fault : Option Fault) :
    (struck fault (.read path)).run files = (.ok (files.text? path), files) := by
  have same : struck fault (.read path) = perform (.read path) := by
    rcases fault with _ | _ | _ <;> rfl
  rw [same, perform_read clear.document]

theorem onFile_of_reads (clear : files.Clear path) (reads : c.change? = none)
    (fault : Option Fault) :
    (onFile path c fault).run files = (.ok (c.find (stateOf (files.text? path))), files) := by
  rw [onFile, c.access_of_reads reads, run_ask (struck_read clear fault)]
  rfl

/-- The files after an update that wrote this text. -/
def rewrittenTo (path text : String) (files : Files) : Files :=
  ((files.put (temporary path) text).remove (temporary path)).put path text

theorem onFile_of_changes (clear : files.Clear path) (changes : c.change? = some change) :
    (onFile path c none).run files =
      (.ok (c.find {}), rewrittenTo path (change (stateOf (files.text? path))).toText files) := by
  have written := perform_write clear.draft (change (stateOf (files.text? path))).toText
  have moved := perform_rename (clear.put_draft _).document
    (Files.text?_put_self files (temporary path) (change (stateOf (files.text? path))).toText)
  rw [onFile, c.access_of_changes changes, run_ask (struck_read clear none)]
  exact (run_ask written).trans (run_ask moved)

/-- The files after an update that failed. -/
def Fault.leaves (path text : String) (files : Files) : Fault → Files
  | .write part _ => part.elim files (files.put (temporary path))
  | .rename _ => files.put (temporary path) text

theorem onFile_of_fails (clear : files.Clear path) (changes : c.change? = some change)
    (fault : Fault) :
    (onFile path c (some fault)).run files =
      (.error fault.error,
        fault.leaves path (change (stateOf (files.text? path))).toText files) := by
  rw [onFile, c.access_of_changes changes, run_ask (struck_read clear (some fault))]
  cases fault with
  | write part e => rfl
  | rename e =>
      let text := (change (stateOf (files.text? path))).toText
      have written : (struck (some (.rename e)) (.write (temporary path) text)).run files =
        (.ok (), files.put (temporary path) text) := perform_write clear.draft text
      exact run_ask written

/-! ## Agreement -/

/-- The document is read as this state. -/
structure Agree (path : String) (files : Files) (s : State) : Prop where
  clear : files.Clear path
  document : stateOf (files.text? path) = s

theorem Agree.storable (agree : Agree path files s) : s.Storable := by
  rw [← agree.document]
  cases files.text? path with
  | none => exact State.storable_empty
  | some text => exact State.storable_ofText text

theorem Call.storable_of_changes (changes : c.change? = some change) (fits : c.Fits)
    (storable : s.Storable) : (change s).Storable := by
  obtain ⟨sorted, cursor, tree⟩ := storable
  cases c with
  | ask r =>
      cases r with
      | setCursor line =>
          cases changes
          exact ⟨sorted, fun _ is => Option.some.inj is ▸ fits, tree⟩
      | clearCursor =>
          cases changes
          exact ⟨sorted, nofun, tree⟩
      | setStopFlag stop =>
          cases changes
          exact ⟨sorted, cursor, tree⟩
      | setTree blocks =>
          cases changes
          exact ⟨sorted, cursor, fits⟩
      | _ => cases changes
  | importKeywords tables =>
      cases changes
      exact ⟨KeywordTables.sorted_merge sorted tables, cursor, tree⟩
  | keywordTables | state => cases changes

theorem Agree.rewrittenTo (agree : Agree path files s) {s' : State} (storable : s'.Storable) :
    Agree path (File.rewrittenTo path s'.toText files) s' where
  clear := ((agree.clear.put_draft _).remove _).put_document _
  document := by
    rw [File.rewrittenTo, Files.text?_put_self]
    exact State.ofText_toText storable

theorem Agree.leaves (agree : Agree path files s) (text : String) (fault : Fault) :
    Agree path (fault.leaves path text files) s := by
  have drafted (text : String) : Agree path (files.put (temporary path) text) s := by
    refine ⟨agree.clear.put_draft text, ?_⟩
    rw [Files.text?_put_of_ne (temporary_ne path).symm, agree.document]
  cases fault with
  | write part e =>
      cases part with
      | none => exact agree
      | some part => exact drafted part
  | rename e => exact drafted text

/-- One call has the same answer on the file and in memory, and afterwards they agree again. -/
theorem Agree.step (agree : Agree path files s) {fault : Option Fault}
    (fits : fault = none → c.Fits) :
    ((onFile path c fault).run files).1 = ((inMemory c fault).run s).1 ∧
      Agree path ((onFile path c fault).run files).2 ((inMemory c fault).run s).2 := by
  cases kind : c.change? with
  | none =>
      rw [onFile_of_reads agree.clear kind, inMemory_of_reads kind, agree.document]
      exact ⟨rfl, agree⟩
  | some change =>
      cases fault with
      | none =>
          -- what is in the document was read from a text, so it can be written again
          rw [onFile_of_changes agree.clear kind, inMemory_of_changes kind, agree.document]
          have storable := c.storable_of_changes kind (fits rfl) agree.storable
          exact ⟨congrArg Except.ok (c.find_of_changes kind ..), agree.rewrittenTo storable⟩
      | some fault =>
          rw [onFile_of_fails agree.clear kind, inMemory_of_fails kind]
          exact ⟨rfl, agree.leaves _ fault⟩

theorem answers_cons {σ : Type}
    (act : (c : Call) → Option Fault → StateM σ (Except Error c.Result)) (fault : Option Fault)
    (calls : List (Call × Option Fault)) (s : σ) :
    (answers act ((c, fault) :: calls)).run s =
      (⟨c, ((act c fault).run s).1⟩ :: ((answers act calls).run ((act c fault).run s).2).1,
        ((answers act calls).run ((act c fault).run s).2).2) := by
  rw [answers, List.mapM_cons]
  rfl

/-- So have calls one after another. -/
theorem Agree.run {calls : List (Call × Option Fault)} (agree : Agree path files s)
    (fits : ∀ c, (c, none) ∈ calls → c.Fits) :
    ((answers (onFile path) calls).run files).1 = ((answers inMemory calls).run s).1 ∧
      Agree path ((answers (onFile path) calls).run files).2
        ((answers inMemory calls).run s).2 := by
  induction calls generalizing files s with
  | nil => exact ⟨rfl, agree⟩
  | cons call calls ih =>
      obtain ⟨c, fault⟩ := call
      have first : _ ∧ Agree path ((onFile path c fault).run files).2 _ :=
        agree.step fun is => fits c (is ▸ List.mem_cons_self ..)
      have rest := ih first.2 fun c called => fits c (List.mem_cons_of_mem _ called)
      rw [answers_cons, answers_cons, first.1, rest.1]
      exact ⟨rfl, rest.2⟩

theorem Agree.loaded (agree : Agree path files s) : File.loaded path files = .ok s := by
  rw [loaded_eq agree.clear, agree.document]

/-- A state that was saved is loaded again. -/
theorem load_saved (clear : files.Clear path) (storable : s.Storable) :
    ((save path s).run.run perform).run files = (.ok (), rewrittenTo path s.toText files) ∧
      loaded path (rewrittenTo path s.toText files) = .ok s := by
  have agree : Agree path files _ := ⟨clear, rfl⟩
  refine ⟨?_, (agree.rewrittenTo storable).loaded⟩
  rw [save_run]
  have moved := perform_rename (clear.put_draft s.toText).document (Files.text?_put_self ..)
  exact (run_ask (perform_write clear.draft s.toText)).trans (run_ask moved)

/-! ## Fields -/

inductive Field
  | keywords
  | cursor
  | stop
  | tree

def Field.Value : Field → Type
  | .keywords => KeywordTables
  | .cursor => Option Nat
  | .stop => Bool
  | .tree => List Block

def Field.get (s : State) : (field : Field) → field.Value
  | .keywords => s.keywords
  | .cursor => s.cursor
  | .stop => s.stop
  | .tree => s.tree

/-- The field a call is to change. -/
def Call.field? : Call → Option Field
  | .ask (.setCursor _) | .ask .clearCursor => some .cursor
  | .ask (.setStopFlag _) => some .stop
  | .ask (.setTree _) => some .tree
  | .importKeywords _ => some .keywords
  | .ask _ | .keywordTables | .state => none

theorem Call.get_of_changes (changes : c.change? = some change) {field : Field}
    (other : c.field? ≠ some field) (s : State) : field.get (change s) = field.get s := by
  cases c with
  | ask r => cases r <;> cases changes <;> cases field <;> first | rfl | exact absurd rfl other
  | importKeywords tables =>
      cases changes
      cases field <;> first | rfl | exact absurd rfl other
  | keywordTables | state => cases changes

theorem get_inMemory {fault : Option Fault} {field : Field} (other : c.field? ≠ some field)
    (s : State) : field.get ((inMemory c fault).run s).2 = field.get s := by
  cases kind : c.change? with
  | none => rw [inMemory_of_reads kind]
  | some change =>
      cases fault with
      | none =>
          rw [inMemory_of_changes kind]
          exact c.get_of_changes kind other s
      | some fault => rw [inMemory_of_fails kind]

theorem Agree.other_field (agree : Agree path files s) {fault : Option Fault}
    (fits : fault = none → c.Fits) {field : Field} (other : c.field? ≠ some field) :
    (File.loaded path ((onFile path c fault).run files).2).map field.get =
      (File.loaded path files).map field.get := by
  rw [agree.loaded, (agree.step fits).2.loaded, Except.map, Except.map, get_inMemory other]

/-- An update that fails is none for the calls after it. -/
theorem Agree.after_failure (agree : Agree path files s) (changes : c.change? = some change)
    (fault : Fault) {later : List (Call × Option Fault)}
    (fits : ∀ c, (c, none) ∈ later → c.Fits) :
    ((answers (onFile path) later).run ((onFile path c (some fault)).run files).2).1 =
      ((answers (onFile path) later).run files).1 := by
  rw [onFile_of_fails agree.clear changes, ((agree.leaves _ fault).run fits).1, (agree.run fits).1]

/-! ## The file as a memory -/

/-- The files after calls. -/
def after (path : String) (calls : List (Call × Option Fault)) (files : Files) : Files :=
  ((answers (onFile path) calls).run files).2

/-- Calls on a file that nobody else touches are answered as if the state were in memory, whatever
was in the file before. At any time, an update leaves all fields but its own as they are, a state
that is saved is loaded again, and an update that fails makes no difference to later calls. -/
theorem answers_as_in_memory {path : String} {files : Files} (clear : files.Clear path)
    {calls : List (Call × Option Fault)} (fits : ∀ c, (c, none) ∈ calls → c.Fits) :
    ((answers (onFile path) calls).run files).1 =
        ((answers inMemory calls).run (stateOf (files.text? path))).1 ∧
      (∀ (c : Call) (fault : Option Fault) (field : Field), (fault = none → c.Fits) →
        c.field? ≠ some field →
        (loaded path ((onFile path c fault).run (after path calls files)).2).map field.get =
          (loaded path (after path calls files)).map field.get) ∧
      (∀ s : State, s.Storable → ∃ saved,
        ((save path s).run.run perform).run (after path calls files) = (.ok (), saved) ∧
          loaded path saved = .ok s) ∧
      ∀ (c : Call) (fault : Fault) (later : List (Call × Option Fault)), c.change?.isSome →
        (∀ c, (c, none) ∈ later → c.Fits) →
        ((onFile path c (some fault)).run (after path calls files)).1 = .error fault.error ∧
          ((answers (onFile path) later).run
              ((onFile path c (some fault)).run (after path calls files)).2).1 =
            ((answers (onFile path) later).run (after path calls files)).1 := by
  have before : Agree path files _ := ⟨clear, rfl⟩
  obtain ⟨same, agree⟩ := before.run fits
  refine ⟨same, fun c fault field fits other => agree.other_field fits other,
    fun s storable => ⟨_, load_saved agree.clear storable⟩, fun c fault later changes fits => ?_⟩
  obtain ⟨change, changes⟩ := Option.isSome_iff_exists.mp changes
  have failed := onFile_of_fails agree.clear changes fault
  exact ⟨congrArg Prod.fst failed, agree.after_failure changes fault fits⟩

/-- The commands of a run and keywords are kept, its place and a stop are lost on a full disk. -/
theorem answers_as_in_memory_full_disk :
    let run : List Block := [.node { line := 1, code := ["run"], src := "go", timeout := 9 } []]
    let tables : KeywordTables := ⟨[⟨"go", "//button", false⟩], [("b.org", []), ("a.org", [])]⟩
    let sorted : KeywordTables := ⟨[⟨"go", "//button", false⟩], [("a.org", []), ("b.org", [])]⟩
    let full : Error := .io "No space left on device (os error 28)"
    let calls : List (Call × Option Fault) := [(.ask (.setTree run), none),
      (.ask (.setCursor 1), some (.rename full)), (.importKeywords tables, none),
      (.ask (.setStopFlag true), some (.write (some "") full)), (.ask .cursor, none),
      (.ask .stopFlag, none), (.ask .tree, none), (.keywordTables, none)]
    let now := after "state.json" calls []
    let stopped := ((onFile "state.json" (.ask (.setStopFlag true)) none).run now).2
    let failed := (onFile "state.json" (.ask (.setTree [])) (some (.rename full))).run now
    ((answers (onFile "state.json") calls).run []).1 =
        [⟨.ask (.setTree run), .ok ()⟩, ⟨.ask (.setCursor 1), .error full⟩,
          ⟨.importKeywords tables, .ok ()⟩, ⟨.ask (.setStopFlag true), .error full⟩,
          ⟨.ask .cursor, .ok none⟩, ⟨.ask .stopFlag, .ok false⟩, ⟨.ask .tree, .ok run⟩,
          ⟨.keywordTables, .ok sorted⟩] ∧
      (loaded "state.json" stopped).map (Field.get · .tree) =
        (loaded "state.json" now).map (Field.get · .tree) ∧
      (∃ saved, ((save "state.json" { cursor := some 1 }).run.run perform).run now =
        (.ok (), saved) ∧ loaded "state.json" saved = .ok { cursor := some 1 }) ∧
      failed.1 = .error full ∧
      ((answers (onFile "state.json") [(.ask .tree, none)]).run failed.2).1 =
        ((answers (onFile "state.json") [(.ask .tree, none)]).run now).1 := by
  intro run tables sorted full calls now stopped failed
  have words : Block.Words (Block.preorderAll run) :=
    List.forall_mem_singleton.mpr (by decide : 1 < 1 <<< 64 ∧ 9 < 1 <<< 64)
  have fits : ∀ c, (c, none) ∈ calls → c.Fits := by
    intro c called
    simp only [calls, List.mem_cons, Prod.mk.injEq, reduceCtorEq, and_false, and_true, false_or,
      List.not_mem_nil, or_false] at called
    rcases called with rfl | rfl | rfl | rfl | rfl | rfl
    · exact ⟨words, by decide⟩
    all_goals trivial
  have storable : State.Storable { cursor := some 1 } :=
    ⟨.nil, fun _ is => Option.some.inj is ▸ by decide, State.storable_empty.tree⟩
  obtain ⟨same, field, saves, fails⟩ :=
    answers_as_in_memory (⟨rfl, rfl⟩ : Files.Clear [] "state.json") fits
  have later : ∀ c, (c, none) ∈ [(Call.ask .tree, (none : Option Fault))] → c.Fits := by
    intro c called
    cases List.mem_singleton.mp called
    trivial
  exact ⟨same, field _ none .tree (fun _ => trivial) nofun, saves _ storable,
    fails (.ask (.setTree [])) (.rename full) _ rfl later⟩

end BrowserScript.Store.File
