import BrowserScript.CommandLine.Basic
import BrowserScript.CommandLine.Help
import BrowserScript.Keyword.Basic

/-!
The commands of the command line.
-/

namespace BrowserScript.CommandLine

/-- The settings and the place of the state. -/
structure Context where
  settings : Settings
  statePath : String

def readText (failure path : String) : Access String := do
  match ← orFault (fun e => ⟨failure, ioCause e⟩)
      (Store.File.read path).run.within with
  | some text => return text
  | none => throw ⟨failure, ioCause Store.File.missing⟩

def valueOf (name : String) : Prog surroundings (Option String) := onConsole (.valueOf name)

/-- The variables with these names, as far as they are set. -/
def environment (names : List String) : Prog surroundings Environment := do
  let found ← names.mapM fun name => do return (← valueOf name).map (name, ·)
  return found.filterMap id

/-- Read settings; without a file they are the default ones. Warnings are logged. -/
def readSettings (path : String) : Access Settings := do
  let failure := "Failed to load config from " ++ path
  let text ← orFault (fun e => ⟨failure, e.message :: ioCause e⟩) (Store.File.read path).run.within
  let env ← environment ((Environment.names (text.getD "").toList).map String.ofList)
  match Settings.loadOrDefault env path text with
  | .error e => throw ⟨failure, [e.message]⟩
  | .ok settings =>
    for w in settings.warnings do log .warn ("Config " ++ w.path ++ ": " ++ w.message)
    if settings.errors.isEmpty then return settings
    for e in settings.errors do log .error ("Config " ++ e.path ++ ": " ++ e.message)
    throw ⟨"Invalid configuration in " ++ path, []⟩

/-- Make sure that the state can be kept. -/
def openState (c : Context) : Access Unit := onFiles (Store.File.makeFolder c.statePath)

def tablesOf (text path : String) : Access KeywordTables :=
  match (Json.parse? text).bind KeywordTables.ofJson? with
  | some tables => return tables
  | none => throw ⟨"Invalid keyword tables in " ++ path, ["not a document of keyword tables"]⟩

def storedTables (c : Context) : Access KeywordTables := do
  openState c
  return (← onFiles (Store.File.load c.statePath)).keywords

/-! ## Scripts without a browser -/

def readScript (path : String) : Access String := readText ("Failed to read script " ++ path) path

def parseScript (c : Context) (script : String) (url keywords : Option String) : Access Unit := do
  let text ← readScript script
  let tables ← match keywords with
    | some path => do tablesOf (← readText ("Failed to read keywords " ++ path) path) path
    | none => storedTables c
  let ofPage := ((url.bind Keyword.domainOfUrl).map tables.ofDomain).getD []
  let tree := Script.parse ⟨tables.shared, ofPage⟩ c.settings.commandTimeout text
  printLine (Json.array (Block.toJsonAll tree)).pretty

def requestStop (c : Context) : Access Unit := do
  openState c
  onFiles (Store.File.serve c.statePath (.setStopFlag true))
  log .info ("Stop requested in " ++ c.statePath)

def importKeywords (c : Context) (file : String) : Access Unit := do
  openState c
  let tables ← tablesOf (← readText ("Failed to read " ++ file) file) file
  onFiles (Store.File.importKeywords c.statePath tables)
  log .info ("Imported " ++ toString tables.shared.length ++ " global keywords and "
    ++ toString tables.domains.length ++ " local domains into " ++ c.statePath)

def listKeywords (c : Context) (domain : Option String) : Access Unit := do
  let tables ← storedTables c
  printLine <| Json.pretty <|
    match domain with
    | some d => .array ((tables.ofDomain d).map Keyword.toJson)
    | none => tables.toJson

/-! ## Scripts in a browser -/

def inBrowser (a : DevTools.NetAccess α) (fault : DevTools.Error → Fault) : Access α :=
  orFault fault (a.run : Prog DevTools.Link.surroundings (Except DevTools.Error α)).within

/-- Attach to a page of the browser. -/
def connect (c : Context) (endpoint url : Option String) : Access Place := do
  let endpoint := endpoint.getD c.settings.endpoint
  let client ← inBrowser (DevTools.Client.connect endpoint) fun e =>
    ⟨"Failed to connect to Chrome at " ++ endpoint, (Fault.ofBrowser e).message
      :: (Fault.ofBrowser e).causes⟩
  (Tasks.start (Job.listen client.connection) : Prog surroundings Unit)
  let attachment ← inBrowser (client.page url) Fault.ofBrowser
  openState c
  return ⟨c.settings, c.statePath, attachment⟩

def reportOutcome : Run.Outcome → Access Unit
  | .completed => log .info "Script completed"
  | .stopped i => log .info ("Script stopped before step " ++ toString i)
  | .aborted i f => throw ⟨"Step " ++ toString i ++ " failed: " ++ f.message, []⟩

def runScript (c : Context) (script : String) (url : Option String) (start : Nat)
    (endpoint : Option String) : Access Unit := do
  let text ← readScript script
  let place ← connect c endpoint url
  log .info ("Running " ++ script ++ " from step " ++ toString start)
  reportOutcome (← place.run (Session.runScript c.settings text start))

def resume (c : Context) (endpoint : Option String) : Access Unit := do
  let place ← connect c endpoint none
  match ← place.run (Session.resume c.settings) with
  | some outcome => reportOutcome outcome
  | none => log .info "Nothing left to resume"

/-- Watch the verify statements of a script for some time and print the report. -/
def observe (c : Context) (script name tester : String) (seconds : Nat)
    (endpoint : Option String) : Access Unit := do
  let text ← readScript script
  let place ← connect c endpoint none
  let fresh : String ← onConsole .identity
  let id ← place.run (Session.startTest c.settings { name, tester, script := text } fresh)
  log .info ("Usability test " ++ id ++ " started, watching for " ++ toString seconds ++ "s")
  (sleep (1000 * seconds) : Prog surroundings Unit)
  let report ← place.run Session.endTest
  let time : String ← onConsole .time
  printLine (report.toJson (some time)).pretty

/-! ## The program -/

def perform (c : Context) : Task → Access Unit
  | .parse script url keywords => parseScript c script url keywords
  | .run script url start endpoint => runScript c script url start endpoint
  | .resume endpoint => resume c endpoint
  | .stop => requestStop c
  | .observe script name tester seconds endpoint => observe c script name tester seconds endpoint
  | .importKeywords file => importKeywords c file
  | .listKeywords domain => listKeywords c domain

def performInvocation (home : String) (i : Invocation) : Access Unit := do
  let settings ← readSettings (i.config.getD (Settings.defaultPath home))
  let statePath := i.state.getD (Settings.expandHome home settings.statePath)
  perform ⟨settings, statePath⟩ i.task

/-- How the program ends. -/
inductive Exit
  | success
  | failure (f : Fault)
  | misuse
deriving DecidableEq, Repr

def Exit.fault? : Exit → Option Fault
  | .failure f => some f
  | _ => none

def Exit.code : Exit → Nat
  | .success => 0
  | .failure _ => 1
  | .misuse => 2

def versionLine : String := programName ++ " 0.1.0"

/-- The whole program. -/
def program (words : List String) (home : String) : Prog surroundings Exit := do
  let env ← environment fallbacks
  match readArguments words env with
  | .version =>
    printLine versionLine
    return .success
  | .help path =>
    printLine (helpPage env path)
    return .success
  | .misuse => return .misuse
  | .invocation i =>
    match ← (performInvocation home i).run with
    | .ok () => return .success
    | .error f => return .failure f

end BrowserScript.CommandLine
