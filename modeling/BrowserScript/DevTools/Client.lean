import BrowserScript.DevTools.Link
import BrowserScript.DevTools.Tab
import BrowserScript.Url.Basic

/-!
A browser that was connected to: its pages are listed and opened over HTTP, and attached to over
the connection.
-/

namespace BrowserScript.DevTools

structure Client where
  /-- Where pages are listed, without slashes at the end. -/
  endpoint : String
  socket : String
  connection : Nat
deriving DecidableEq, Repr

/-- A page session over a connection. -/
structure Attachment where
  connection : Nat
  tab : Tab
deriving DecidableEq, Repr

abbrev NetAccess (α : Type) : Type := ExceptT Error (Prog Link.surroundings) α

def Attachment.run (a : Attachment) (p : Access α) : NetAccess α :=
  ExceptT.mk (Link.overConnection a.connection p.run)

def unreadableBody : String := "error decoding response body"

/-- The document at an address. -/
def fetchAs (decode : Json → Option α) (method url : String) :
    Prog Link.surroundings (Except String α) := do
  let body : Except String String ← Link.onNetwork (.fetch method url)
  match body with
  | .error text => return .error text
  | .ok text =>
    match (Json.parse? text).bind decode with
    | some a => return .ok a
    | none => return .error unreadableBody

def orFail (error : String → Error) (p : Prog Link.surroundings (Except String α)) :
    NetAccess α := ExceptT.mk do
  match ← p with
  | .ok a => return .ok a
  | .error text => return .error (error text)

def withoutSlashes (s : String) : String :=
  String.ofList (s.toList.reverse.dropWhile (· == '/')).reverse

namespace Client

/-- Connect to the browser at an address. Somebody has to listen to the connection. -/
def connect (place : String) : NetAccess Client := do
  match Url.parse none place with
  | .error e => throw (.connectionFailed ("Invalid URL: " ++ e.message))
  | .ok url =>
    let endpoint := withoutSlashes url.toText
    let version ← orFail (fun text => .unavailable (place ++ ": " ++ text))
      (fetchAs Version.ofJson? "GET" (endpoint ++ "/json/version"))
    let connection ← orFail (fun text => .connectionFailed ("WebSocket: " ++ text))
      (Link.onNetwork (.connect version.socket))
    return ⟨endpoint, version.socket, connection⟩

def targets (c : Client) : NetAccess (List Target) :=
  orFail .http (fetchAs (Json.asList Target.ofJson?) "GET" (c.endpoint ++ "/json/list"))

/-- Attach to something that is open. -/
def attach (c : Client) (target : String) : NetAccess Attachment := do
  let answer ← ExceptT.mk (Link.call c.connection ⟨"Target.attachToTarget",
    some (.object [("flatten", .bool true), ("targetId", .string target)]), none⟩)
  match (answer.field "sessionId").string? with
  | none => throw (.invalidResponse "Missing sessionId")
  | some session =>
    let attached : Attachment := ⟨c.connection, ⟨target, session⟩⟩
    attached.run attached.tab.enable
    return attached

/-- Open a new page at an address, attach to it and wait until it can be used. -/
def openPage (c : Client) (url : String) : NetAccess Attachment := do
  let target ← orFail .http (fetchAs Target.ofJson? "PUT" (c.endpoint ++ "/json/new?" ++ url))
  let attached ← c.attach target.id
  attached.run attached.tab.waitForLoad
  return attached

/-- A new page at an address, or without one the first page that is open. -/
def page (c : Client) : Option String → NetAccess Attachment
  | some url => c.openPage url
  | none => do
    match (← c.targets).find? Target.isPage with
    | some target => c.attach target.id
    | none => throw (.noPage c.endpoint)

end Client

end BrowserScript.DevTools
