import BrowserScript.Locator.Basic
import BrowserScript.Page.Interaction
import BrowserScript.Run.Basic
import BrowserScript.Settings.Basic
import BrowserScript.Verification.Once

/-!
Single steps: the element of a command is looked up, the command waits its time, and then it acts.
-/

namespace BrowserScript.Run

open Page (Handle)

def verbText (c : Command) : String := c.verb.getD "noop"

/-- What a command is about: its locator, or else the word after the verb. -/
def targetText (c : Command) : String :=
  (c.locator <|> (c.code[1]?).map Command.unquote).getD ""

def logEntry (c : Command) (description : String) : Event := .log (c.line + 1) description

def performed (c : Command) : Event :=
  logEntry c ("Performed '" ++ verbText c ++ "' on '" ++ targetText c ++ "'")

/-- How long a command waits before it acts. -/
def delayOf (s : Settings) (c : Command) : Nat :=
  if 0 < c.timeout then c.timeout else s.stepping.delay

def skips (s : Settings) : Bool := s.stepping.missing = .skip

/-- Look below the heading of the command first, then on the whole page. -/
def lookup (s : Settings) (patience : Locator.Patience) (c : Command) (locator : String) :
    Prog surroundings (Option Handle) := do
  if let some heading := c.header then
    if let some el ← onPage (Locator.findUnderHeading heading locator s.headingDepth) then
      return some el
  if let some el ← (Locator.find patience locator : Prog Page.timed (Option Handle)) then
    return some el
  onPage (Locator.findDescribed locator)

/-- How long to wait between two looks for an element that may be missing. -/
def pollOf (s : Settings) : Nat := max s.stepping.skipPoll 1

theorem pollOf_pos (s : Settings) : 0 < pollOf s := Nat.le_max_right _ 1

/-- Look at once, and again after each pause as long as there is time left, and a last time when
there is none. -/
def lookWhile (s : Settings) (c : Command) (locator : String) (remaining : Nat) :
    Prog surroundings (Option Handle) := do
  if let some el ← lookup s .once c locator then return some el
  if remaining = 0 then return none
  pause (pollOf s)
  lookWhile s c locator (remaining - pollOf s)
termination_by remaining
decreasing_by
  have := pollOf_pos s
  omega

/-- The element of a step. Where missing elements are skipped it is looked for until the timeout
of the command is over. -/
def resolve (s : Settings) (c : Command) (locator : String) : Prog surroundings (Option Handle) :=
  if skips s then lookWhile s c locator c.timeout
  else lookup s s.patience c locator

def fail (s : Settings) (c : Command) (f : Failure) : Prog surroundings StepResult := do
  tell (logEntry c ("❌ Error: '" ++ verbText c ++ "' on '" ++ targetText c ++ "' failed - "
    ++ f.message))
  return if skips s then .skipped else .failed f

def missing (s : Settings) (c : Command) (locator : String) : Prog surroundings StepResult := do
  if skips s then
    tell (logEntry c ("cannot find tag '" ++ locator ++ "'"))
    return .skipped
  else fail s c (.elementNotFound locator)

/-- The result of acting on the page. -/
def acted (s : Settings) (c : Command) (a : Page.Access Unit) : Prog surroundings StepResult := do
  match ← onPage a.result with
  | .ok () => return .done
  | .error e => fail s c (.page e)

def actOn (s : Settings) (c : Command) (locator : String) (a : Handle → Page.Access Unit) :
    Prog surroundings StepResult := do
  match ← resolve s c locator with
  | none => missing s c locator
  | some el =>
    pause (delayOf s c)
    acted s c (a el)

def actOnPage (s : Settings) (c : Command) (a : Page.Access Unit) :
    Prog surroundings StepResult := do
  pause (delayOf s c)
  acted s c a

def report (c : Command) (found : Verification.Outcome) : Prog surroundings Unit := do
  tell (logEntry c ((if found.success then "✅ " else "❌ ") ++ found.message))
  tell (.verdict ⟨c.src, found.success, found.message⟩)

/-- The verdict on a verification whose element is not there. -/
def absent (v : Verification) (locator : String) : Verification.Outcome :=
  match v with
  | .state .hidden _ => Verification.hiddenBecauseAbsent
  | _ => .fail ("Element not found for verification: " ++ locator)

/-- The element a verification is about: without a locator the body, for page texts none. The
error is the locator of an element that was not found. -/
def subjectOf (s : Settings) (c : Command) (v : Verification) :
    Prog surroundings (Except String (Option Handle)) :=
  match v, v.locator with
  | .page .., _ => return .ok none
  | _, none => do
    match ← onPage (Page.first "body").result with
    | .ok found => return .ok found
    | .error _ => return .ok none
  | _, some locator => do
    match ← lookup s s.patience c locator with
    | some el => return .ok (some el)
    | none => return .error locator

/-- Check a verification. Its verdict is reported and does not end the run. -/
def verify (s : Settings) (c : Command) (v : Verification) : Prog surroundings Unit := do
  match ← subjectOf s c v with
  | .error locator => report c (absent v locator)
  | .ok el =>
    pause (delayOf s c)
    report c (← onPage (v.check el))

/-- A step that has no steps below it. -/
def simple (s : Settings) (c : Command) : Action → Prog surroundings StepResult
  | .noop | .under _ => return .done
  | .wait ms => do
    pause ms
    return .done
  | .navigate url => actOnPage s c (Page.navigate url)
  | .press key none => actOnPage s c (Page.press .document key)
  | .press key (some locator) => actOn s c locator fun el => Page.press (.element el) key
  | .verify v => do
    verify s c v
    return .done
  | .unsupported verb => fail s c (.unsupported verb)
  | .click locator => actOn s c locator Page.click
  | .type locator value => actOn s c locator fun el => Page.typeText el value
  | .select locator value => actOn s c locator fun el => Page.select el value
  | .mouseover locator => actOn s c locator Page.mouseover

mutual

def step (s : Settings) : Block → Access StepResult
  | .node c body =>
    match c.action with
    | .error e => fail s c (.command e)
    | .ok (.under _) => steps s body
    | .ok a => simple s c a

/-- The steps below a heading, one after another. -/
def steps (s : Settings) : List Block → Access StepResult
  | [] => return .done
  | b :: rest => do
    if ← Store.stopFlag then return .stopped
    match ← step s b with
    | .done =>
      tell (performed b.command)
      steps s rest
    | .skipped => steps s rest
    | other => return other

end

/-- The top-level steps, the first of which has this number. Progress and the cursor follow them
only. -/
def topSteps (s : Settings) (total : Nat) : Nat → List Block → Access Outcome
  | _, [] => return .completed
  | i, b :: rest => do
    if ← Store.stopFlag then return .stopped i
    match ← step s b with
    | .done =>
      tell (.progress (i + 1) total)
      tell (performed b.command)
      Store.setCursor i
      topSteps s total (i + 1) rest
    | .skipped =>
      Store.setCursor i
      topSteps s total (i + 1) rest
    | .failed f => return .aborted i f
    | .stopped => return .stopped i

/-- Run a tree from a top-level step on. -/
def execute (s : Settings) (start : Nat) (tree : List Block) : Access Outcome :=
  topSteps s tree.length start (tree.drop start)

end BrowserScript.Run
