import BrowserScript.Json.Decode
import BrowserScript.Locator.Basic

/-!
Settings with their defaults, as documents, and what is wrong with them.
-/

namespace BrowserScript

namespace Settings

/-- What a run does when the element of a step cannot be found. -/
inductive Missing
  /-- End the run. -/
  | abort
  /-- Look again until the time of the command is over, then go on. -/
  | skip
deriving DecidableEq, Repr

def Missing.word : Missing → String
  | .abort => "abort"
  | .skip => "skip"

def Missing.named? (s : String) : Option Missing := [Missing.abort, .skip].find? (·.word == s)

/-- How steps are run. Times are in milliseconds. -/
structure Stepping where
  /-- Before the action of a command that has no timeout. -/
  delay : Nat := 500
  missing : Missing := .abort
  skipPoll : Nat := 100
deriving DecidableEq, Repr

/-- How verifications are watched. Times are in milliseconds. -/
structure Watching where
  deadline : Nat := 60000
  /-- For titles and addresses. -/
  pageDeadline : Nat := 30000
  poll : Nat := 500
deriving DecidableEq, Repr

end Settings

structure Settings where
  /-- The timeout of every parsed command. -/
  commandTimeout : Nat := 5000
  patience : Locator.Patience := ⟨5, 1000⟩
  /-- How many levels up from a heading its section is looked for. -/
  headingDepth : Nat := 1
  stepping : Settings.Stepping := {}
  watching : Settings.Watching := {}
  endpoint : String := "http://localhost:9222"
  statePath : String := "~/.herbie/state.json"
deriving DecidableEq, Repr

namespace Settings

/-! ## Documents -/

def toJson (s : Settings) : Json :=
  let number (n : Nat) : Json := .ofNat n
  .object [
    ("parser", .object [("default_timeout_ms", number s.commandTimeout)]),
    ("locator", .object [("retries", number s.patience.retries),
      ("retry_delay_ms", number s.patience.delay), ("heading_depth", number s.headingDepth)]),
    ("executor", .object [("default_delay_ms", number s.stepping.delay),
      ("on_element_not_found", .string s.stepping.missing.word),
      ("skip_poll_ms", number s.stepping.skipPoll)]),
    ("verification", .object [("timeout_ms", number s.watching.deadline),
      ("page_timeout_ms", number s.watching.pageDeadline),
      ("poll_interval_ms", number s.watching.poll)]),
    ("browser", .object [("cdp_endpoint", .string s.endpoint)]),
    ("storage", .object [("state_path", .string s.statePath)])]

def word (default : Nat) : Option Json → Option Nat := Json.withDefault default Json.asWord

def readParser (s : Settings) (j : Json) : Option Settings := do
  let [timeout] ← Json.record ["default_timeout_ms"] 0 j | none
  some { s with commandTimeout := ← word s.commandTimeout timeout }

def readLocator (s : Settings) (j : Json) : Option Settings := do
  let [retries, delay, depth] ←
    Json.record ["retries", "retry_delay_ms", "heading_depth"] 0 j | none
  let retries ← Json.withDefault s.patience.retries (Json.asNat (1 <<< 32)) retries
  some { s with
    patience := ⟨retries, ← word s.patience.delay delay⟩
    headingDepth := ← word s.headingDepth depth }

def readExecutor (s : Settings) (j : Json) : Option Settings := do
  let [delay, missing, poll] ←
    Json.record ["default_delay_ms", "on_element_not_found", "skip_poll_ms"] 0 j | none
  some { s with stepping := {
    delay := ← word s.stepping.delay delay
    missing := ← Json.withDefault s.stepping.missing (Json.asName Missing.named?) missing
    skipPoll := ← word s.stepping.skipPoll poll } }

def readVerification (s : Settings) (j : Json) : Option Settings := do
  let [deadline, pageDeadline, poll] ←
    Json.record ["timeout_ms", "page_timeout_ms", "poll_interval_ms"] 0 j | none
  some { s with watching := {
    deadline := ← word s.watching.deadline deadline
    pageDeadline := ← word s.watching.pageDeadline pageDeadline
    poll := ← word s.watching.poll poll } }

def readBrowser (s : Settings) (j : Json) : Option Settings := do
  let [endpoint] ← Json.record ["cdp_endpoint"] 0 j | none
  some { s with endpoint := ← Json.withDefault s.endpoint Json.asString endpoint }

def readStorage (s : Settings) (j : Json) : Option Settings := do
  let [path] ← Json.record ["state_path"] 0 j | none
  some { s with statePath := ← Json.withDefault s.statePath Json.asString path }

def sections : List (String × (Settings → Json → Option Settings)) :=
  [("parser", readParser), ("locator", readLocator), ("executor", readExecutor),
    ("verification", readVerification), ("browser", readBrowser), ("storage", readStorage)]

/-- Settings from a document. What is left out has its default. -/
def ofJson? (j : Json) : Option Settings := do
  let found ← Json.record (sections.map (·.1)) 0 j
  (sections.zip found).foldlM (fun s ((_, read), j) =>
    match j with
    | some j => read s j
    | none => some s) {}

/-! ## Validation -/

/-- A remark on a setting, which is named by its section and its name. -/
structure Remark where
  path : String
  message : String
deriving DecidableEq, Repr

def remarkIf (condition : Bool) (path message : String) : List Remark :=
  if condition then [⟨path, message⟩] else []

/-- What makes the settings unusable. -/
def errors (s : Settings) : List Remark :=
  remarkIf (s.stepping.skipPoll == 0) "executor.skip_poll_ms"
      "skip_poll_ms must be greater than 0"
    ++ remarkIf (s.watching.poll == 0) "verification.poll_interval_ms"
      "poll_interval_ms must be greater than 0"
    ++ remarkIf (s.watching.deadline == 0) "verification.timeout_ms"
      "timeout_ms must be greater than 0"
    ++ remarkIf (!Text.startsWith s.endpoint "http://" && !Text.startsWith s.endpoint "https://")
      "browser.cdp_endpoint" "cdp_endpoint must start with http:// or https://"

/-- What may not be meant. -/
def warnings (s : Settings) : List Remark :=
  remarkIf (s.patience.retries == 0) "locator.retries"
      "retries is 0, elements are looked up once without waiting"
    ++ remarkIf (s.headingDepth == 0) "locator.heading_depth"
      "heading_depth is 0, targets are searched inside the heading itself"
    ++ remarkIf (s.watching.pageDeadline < s.watching.poll) "verification.page_timeout_ms"
      "page_timeout_ms is shorter than poll_interval_ms, page checks will poll at most once"

inductive Error
  | notFound (path : String)
  | invalidFormat (path : String)
  | invalidValue (remark : Remark)
  | unsetVariable (name : String)
  | notToml
deriving DecidableEq, Repr

/-- The kind of an error, for programs. -/
def Error.kind : Error → String
  | .notFound _ => "NotFound"
  | .invalidFormat _ => "InvalidFormat"
  | .invalidValue _ => "InvalidValue"
  | .unsetVariable _ => "EnvVarNotSet"
  | .notToml => "TomlParse"

def Error.message : Error → String
  | .notFound path => "Config file not found: " ++ path
  | .invalidFormat path => "Invalid config in " ++ path
  | .invalidValue r => "Invalid value for " ++ r.path ++ ": " ++ r.message
  | .unsetVariable name => "Environment variable not set: " ++ name
  | .notToml => "TOML parse error"

/-- The warnings about usable settings. -/
def validated (s : Settings) : Except Error (List Remark) :=
  match s.errors with
  | r :: _ => .error (.invalidValue r)
  | [] => .ok s.warnings

def Remark.toJson (r : Remark) : Json := .array [.string r.path, .string r.message]

/-- The settings, with what is wrong with them. -/
def toFields (s : Settings) : Json.Fields :=
  [("config", s.toJson), ("valid", .bool s.errors.isEmpty),
    ("errors", .array (s.errors.map Remark.toJson)),
    ("warnings", .array (s.warnings.map Remark.toJson))]

end Settings

end BrowserScript
