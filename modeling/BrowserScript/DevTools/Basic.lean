import BrowserScript.Page.Basic
import BrowserScript.Program.Basic
import BrowserScript.Json.Printer
import BrowserScript.Text.Search

/-!
Calls to a browser over its debugging protocol, and how they fail.
-/

namespace BrowserScript.DevTools

inductive Error
  | connectionFailed (text : String)
  | unavailable (place : String)
  | socket (text : String)
  | protocol (code : Int) (text : String)
  | serialization (text : String)
  | http (text : String)
  | noPage (place : String)
  | navigationFailed (text : String)
  /-- Thrown by a script in the page. -/
  | script (text : String)
  | timeout (text : String)
  | sessionClosed
  | invalidResponse (text : String)
deriving DecidableEq, Repr, Inhabited

namespace Error

def message : Error → String
  | .connectionFailed text => "Connection failed: " ++ text
  | .unavailable place => "Chrome not available at " ++ place
      ++ ". Start Chrome with: chrome --remote-debugging-port=9222"
  | .socket text => "WebSocket error: " ++ text
  | .protocol code text => "CDP error: " ++ text ++ " (code: " ++ toString code ++ ")"
  | .serialization text => "Serialization error: " ++ text
  | .http text => "HTTP error: " ++ text
  | .noPage place => "No page target available at " ++ place
  | .navigationFailed text => "Navigation failed: " ++ text
  | .script text => "JavaScript error: " ++ text
  | .timeout text => "Timeout: " ++ text
  | .sessionClosed => "Session closed"
  | .invalidResponse text => "Invalid response: " ++ text

/-- The kind of an error, for programs. -/
def kind : Error → String
  | .connectionFailed _ => "ConnectionFailed"
  | .unavailable _ => "ChromeNotAvailable"
  | .socket _ => "WebSocket"
  | .protocol .. => "Protocol"
  | .serialization _ => "Serialization"
  | .http _ => "Http"
  | .noPage _ => "NoPage"
  | .navigationFailed _ => "NavigationFailed"
  | .script _ => "JavaScript"
  | .timeout _ => "Timeout"
  | .sessionClosed => "SessionClosed"
  | .invalidResponse _ => "InvalidResponse"

/-- An error of a kind, with its text and code where it has them. -/
def ofKind? (kind text : String) (code : Int) : Option Error :=
  [.connectionFailed text, .unavailable text, .socket text, .protocol code text,
    .serialization text, .http text, .noPage text, .navigationFailed text, .script text,
    .timeout text, .sessionClosed, .invalidResponse text].find? fun e => e.kind == kind

/-- What a page script throws for a handle of another document, before the handle. -/
def staleMark : String := "herbie:stale:"

/-- The handle after the first mark, if a number below 2^64 stands there. -/
def staleHandle? (text : String) : Option Nat := do
  let (_, rest) ← Text.splitAt? staleMark.toList text.toList
  let digits := rest.takeWhile Text.isAsciiDigit
  let id := Decimal.digitsValue digits
  if !digits.isEmpty && id < 1 <<< 64 then some id else none

/-- What an exception of a page script says about the request. -/
def scriptError (text : String) : Page.Error :=
  match staleHandle? text with
  | some id => .staleElement id
  | none =>
    if Text.occursIn "is not a valid selector" text then .invalidSelector text
    else if Text.occursIn "is not a valid XPath expression" text then .invalidXPath text
    else .script text

def toPage : Error → Page.Error
  | .script text => scriptError text
  | .navigationFailed text => .navigationFailed text
  | other => .backend other.message

end Error

/-- One call. Null parameters are sent, absent ones are left out. -/
structure Call where
  method : String
  params : Option Json := none
  session : Option String := none

namespace Call

/-- The message of a call, which may have a number. -/
def toJson (c : Call) (id : Option Nat) : Json :=
  .ofFields [("id", id.map .ofNat), ("method", some (.string c.method)), ("params", c.params),
    ("sessionId", c.session.map .string)]

end Call

/-- Calls, each of which has an answer or fails. -/
def calls : Signature := ⟨Call, fun _ => Except Error Json⟩

/-- What a page session needs. -/
abbrev surroundings : Signature := calls.sum clock

/-- A program that ends with the first error. -/
abbrev Access (α : Type) : Type := ExceptT Error (Prog surroundings) α

def call (c : Call) : Access Json := ExceptT.mk (Prog.request (S := calls) c).within

end BrowserScript.DevTools
