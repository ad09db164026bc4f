import BrowserScript.Command.Action
import BrowserScript.Settings.Load

/-!
The arguments of the command line. Options may stand anywhere after the command they belong to,
those of the program also before it; an option is given once at most on its level.
-/

namespace BrowserScript.CommandLine

inductive Task
  | parse (script : String) (url keywords : Option String)
  | run (script : String) (url : Option String) (start : Nat) (endpoint : Option String)
  | resume (endpoint : Option String)
  | stop
  | observe (script name tester : String) (seconds : Nat) (endpoint : Option String)
  | importKeywords (file : String)
  | listKeywords (domain : Option String)
deriving DecidableEq, Repr

structure Invocation where
  config : Option String
  state : Option String
  task : Task
deriving DecidableEq, Repr

inductive Arguments
  | invocation (i : Invocation)
  | version
  /-- Help on the command with this path. -/
  | help (path : List String)
  | misuse
deriving DecidableEq, Repr

/-! ## The grammar -/

inductive Kind
  | text
  /-- Not empty. -/
  | path
  /-- A natural number below 2^64. -/
  | number
deriving DecidableEq, Repr

/-- Whether a text is a value of a kind. -/
def Kind.admits (k : Kind) (s : String) : Bool :=
  match k with
  | .text => true
  | .path => s != ""
  | .number => (Command.milliseconds? s).isSome

/-- An option with a value. -/
structure Flag where
  name : String
  kind : Kind
  about : String
  letter : Option Char := none
  /-- The variable of the environment that stands in for it. -/
  fallback : Option String := none
  /-- The value where none is given. -/
  default : Option String := none
deriving DecidableEq, Repr

/-- A command: what it does, its options, its paths with what they are, and the commands below
it. -/
inductive Level
  | mk (about : String) (options : List Flag) (paths : List (String × String))
    (commands : List (String × Level))

namespace Level

def about : Level → String
  | .mk about _ _ _ => about

def options : Level → List Flag
  | .mk _ options _ _ => options

def paths : Level → List (String × String)
  | .mk _ _ paths _ => paths

def commands : Level → List (String × Level)
  | .mk _ _ _ commands => commands

def command? (l : Level) (name : String) : Option Level :=
  (l.commands.find? (·.1 == name)).map (·.2)

end Level

def config : Flag where
  name := "config"
  kind := .path
  about := "Configuration file path (default: ~/.herbie/config.toml)"
  letter := some 'c'
  fallback := some "HERBIE_CONFIG"

def state : Flag where
  name := "state"
  kind := .path
  about := "State file path (default: storage.state_path from the config)"
  fallback := some "HERBIE_STATE"

/-- Options of the program, which may stand on every level. -/
def everywhere : List Flag := [config, state]

def endpoint : Flag where
  name := "endpoint"
  kind := .text
  about := "Chrome debugging endpoint (default: browser.cdp_endpoint)"

def startLine : Flag where
  name := "start-line"
  kind := .number
  about := "Zero-based top-level step to start from"
  default := some "0"

def taskName : Flag where
  name := "task-name"
  kind := .text
  about := ""
  default := some "Usability task"

def testerName : Flag where
  name := "tester-name"
  kind := .text
  about := ""
  default := some "anonymous"

def duration : Flag where
  name := "duration-secs"
  kind := .number
  about := "How long to watch before ending the test"
  default := some "60"

/-- The path of a script. -/
def script : String × String := ("SCRIPT", "Script file")

def parseLevel : Level :=
  .mk "Parse a script and print its command tree as JSON"
    [{ name := "url", kind := .text, about := "Page URL whose domain selects local keywords" },
      { name := "keywords", kind := .path
        about := "Keyword tables JSON to use instead of the state file" }]
    [script] []

def runLevel : Level :=
  .mk "Run a script against a Chrome page"
    [{ name := "url", kind := .text
       about := "Open this URL in a new tab instead of using the first page" }, startLine, endpoint]
    [script] []

def resumeLevel : Level :=
  .mk "Continue the persisted run after its last completed step" [endpoint] [] []

def stopLevel : Level := .mk "Ask a running script to halt before its next step" [] [] []

def observeLevel : Level :=
  .mk "Watch a script's verify statements while a tester uses the page"
    [taskName, testerName, duration, endpoint] [script] []

def importLevel : Level :=
  .mk "Merge keyword tables from a JSON file into the state file" []
    [("FILE", "`\x7b \"globalKeywords\": [..], \"localKeywords\": \x7b domain: [..] \x7d \x7d`")] []

def listLevel : Level :=
  .mk "Print the stored keyword tables"
    [{ name := "domain", kind := .text
       about := "Only this registrable domain's local keywords" }] [] []

def keywordsLevel : Level :=
  .mk "Keyword table management" [] [] [("import", importLevel), ("list", listLevel)]

def grammar : Level :=
  .mk "Pseudo-English browser test scripting engine" [] [] [
    ("parse", parseLevel), ("run", runLevel), ("resume", resumeLevel), ("stop", stopLevel),
    ("observe", observeLevel), ("keywords", keywordsLevel)]

/-! ## Reading -/

/-- How far the reading has come. -/
structure Progress where
  level : Level := grammar
  /-- The commands so far, the latest first. -/
  commands : List String := []
  /-- The values of options, the latest first. -/
  values : List (String × String) := []
  /-- The options given on this level. -/
  given : List String := []
  paths : List String := []
  /-- Whether options have come to an end. -/
  closed : Bool := false
  /-- Whether help was asked for by name, so that only commands may follow. -/
  helping : Bool := false
  /-- The option whose value is the next word. -/
  pending : Option Flag := none

namespace Progress

def takeValue (p : Progress) (f : Flag) (value : String) : Option Progress :=
  if f.kind.admits value && !p.given.contains f.name then
    some { p with
      values := (f.name, value) :: p.values, given := f.name :: p.given, pending := none }
  else none

def takeCommand (p : Progress) (name : String) : Option Progress :=
  (p.level.command? name).map fun level =>
    { p with level, commands := name :: p.commands, given := [] }

/-- A word that is no option: a command or a path. -/
def takeWord (p : Progress) (word : String) : Option Progress :=
  if p.level.commands.isEmpty then
    if p.paths.length < p.level.paths.length && Kind.path.admits word then
      some { p with paths := p.paths ++ [word] }
    else none
  else if p.closed then none
  else if word == "help" then some { p with helping := true }
  else p.takeCommand word

def flag? (p : Progress) (name : String) : Option Flag :=
  (everywhere ++ p.level.options).find? (·.name == name)

/-- An option, whose value may be in the same word. -/
def takeOption (p : Progress) (name : String) (value : Option String) : Option Progress :=
  match p.flag? name, value with
  | none, _ => none
  | some f, some value => p.takeValue f value
  | some f, none => some { p with pending := some f }

end Progress

/-- What one word is. -/
inductive Word
  | close
  | help
  | version
  /-- An option, with its value if it is in the same word. -/
  | option (name : String) (value : Option String)
  | plain (s : String)
  | wrong

/-- The name of an option and the value after an equals sign. -/
def longOption (cs : List Char) : Word :=
  match cs.takeWhile (· != '='), cs.dropWhile (· != '=') with
  | name, [] =>
    if name == "help".toList then .help
    else if name == "version".toList then .version
    else .option (String.ofList name) none
  | name, _ :: value => .option (String.ofList name) (some (String.ofList value))

def wordOf (s : String) : Word :=
  match s.toList with
  | ['-', '-'] => .close
  | '-' :: '-' :: rest => longOption rest
  | ['-'] => .plain s
  | '-' :: 'h' :: _ => .help
  | '-' :: 'V' :: _ => .version
  | ['-', 'c'] => .option "config" none
  | '-' :: 'c' :: '=' :: value => .option "config" (some (String.ofList value))
  | '-' :: 'c' :: value => .option "config" (some (String.ofList value))
  | '-' :: _ => .wrong
  | _ => .plain s

/-- Whether a word can be the value of the option before it. -/
def canBeValue (s : String) : Bool := !Text.startsWith s "-" || s == "-"

inductive Ending
  | read (p : Progress)
  | version
  | help (path : List String)
  | misuse

/-- Read one word, unless it ends the reading. -/
def readWord (p : Progress) (s : String) : Except Ending Progress :=
  let orMisuse (next : Option Progress) : Except Ending Progress :=
    match next with
    | some p => .ok p
    | none => .error .misuse
  match p.pending with
  | some f => if canBeValue s then orMisuse (p.takeValue f s) else .error .misuse
  | none =>
    if p.helping then orMisuse (p.takeCommand s)
    else if p.closed then orMisuse (p.takeWord s)
    else
      match wordOf s with
      | .close => .ok { p with closed := true }
      | .help => .error (.help p.commands.reverse)
      | .version => .error (if p.commands.isEmpty then .version else .misuse)
      | .wrong => .error .misuse
      | .plain s => orMisuse (p.takeWord s)
      | .option name value => orMisuse (p.takeOption name value)

def readWords (words : List String) : Ending :=
  match words.foldlM readWord {} with
  | .error e => e
  | .ok p =>
    if p.pending.isSome then .misuse
    else if p.helping then .help p.commands.reverse
    else .read p

namespace Progress

def value? (p : Progress) (name : String) : Option String :=
  (p.values.find? (·.1 == name)).map (·.2)

def text (p : Progress) (f : Flag) : String := ((p.value? f.name) <|> f.default).getD ""

def number (p : Progress) (f : Flag) : Nat := (Command.milliseconds? (p.text f)).getD 0

/-- The value of an option, or else that of the variable that stands in for it. -/
def orFallback (p : Progress) (env : Environment) (f : Flag) : Option String :=
  p.value? f.name <|> f.fallback.bind env.get?

def task? (p : Progress) : Option Task :=
  match p.commands, p.paths with
  | ["parse"], [script] => some (.parse script (p.value? "url") (p.value? "keywords"))
  | ["run"], [script] =>
    some (.run script (p.value? "url") (p.number startLine) (p.value? "endpoint"))
  | ["resume"], [] => some (.resume (p.value? "endpoint"))
  | ["stop"], [] => some .stop
  | ["observe"], [script] =>
    some (.observe script (p.text taskName) (p.text testerName) (p.number duration)
      (p.value? "endpoint"))
  | ["import", "keywords"], [file] => some (.importKeywords file)
  | ["list", "keywords"], [] => some (.listKeywords (p.value? "domain"))
  | _, _ => none

end Progress

/-- The variables that stand in for options. -/
def fallbacks : List String := everywhere.filterMap (·.fallback)

/-- Read the arguments. A variable that stands in for an option has to be a value of it, needed or
not. -/
def readArguments (words : List String) (env : Environment) : Arguments :=
  match readWords words with
  | .version => .version
  | .help path => .help path
  | .misuse => .misuse
  | .read p =>
    let usable := fallbacks.all fun name => (env.get? name).all Kind.path.admits
    match p.task? with
    | some task =>
      if usable then .invocation ⟨p.orFallback env config, p.orFallback env state, task⟩
      else .misuse
    | none => .misuse

end BrowserScript.CommandLine
