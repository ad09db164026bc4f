import BrowserScript.DevTools.Basic
import BrowserScript.Json.Decode

/-!
What a browser sends over its debugging protocol.
-/

namespace BrowserScript.DevTools

/-- A message from the browser: the answer to a call or an event. -/
structure Incoming where
  id : Option Nat
  result : Option Json
  failure : Option (Int × String)
  method : Option String
  session : Option String

/-- Something a browser has open. -/
structure Target where
  id : String
  kind : String
  title : String
  url : String
  socket : Option String
deriving DecidableEq, Repr

structure Version where
  browser : String
  protocol : String
  socket : String
deriving DecidableEq, Repr

/-- An error as a list of its kind, its text and maybe a code. -/
def Error.ofJson? (j : Json) : Option Error :=
  let text (i : Nat) : String := ((j.at_ i).string?).getD ""
  ofKind? (text 0) (text 1) ((Json.asInt 64 (j.at_ 2)).getD 0)

def failureOfJson? (j : Json) : Option (Int × String) := do
  match ← Json.record ["code", "message"] 2 j with
  | [code, message] =>
    some (← Json.required (Json.asInt 64) code, ← Json.required Json.asString message)
  | _ => none

def Incoming.ofJson? (j : Json) : Option Incoming := do
  match ← Json.record ["id", "result", "error", "method", "sessionId"] 5 j with
  | [id, result, failure, method, session] =>
    some {
      id := ← Json.optional Json.asWord id
      result := ← Json.optional some result
      failure := ← Json.optional failureOfJson? failure
      method := ← Json.optional Json.asString method
      session := ← Json.optional Json.asString session }
  | _ => none

def Target.ofJson? (j : Json) : Option Target := do
  match ← Json.record ["id", "type", "title", "url", "webSocketDebuggerUrl"] 5 j with
  | [id, kind, title, url, socket] =>
    some {
      id := ← Json.required Json.asString id
      kind := ← Json.required Json.asString kind
      title := ← Json.required Json.asString title
      url := ← Json.required Json.asString url
      socket := ← Json.optional Json.asString socket }
  | _ => none

def Target.isPage (t : Target) : Bool := t.kind == "page"

/-! ## What was read -/

def Incoming.toJson (m : Incoming) : Json :=
  .object [("id", Json.ofOption .ofNat m.id), ("result", m.result.getD .null),
    ("method", Json.ofOption .string m.method), ("session", Json.ofOption .string m.session),
    ("error", Json.ofOption (fun (code, text) => .array [.int code, .string text]) m.failure)]

def Target.toFields (t : Target) : Json.Fields :=
  [("id", .string t.id), ("type", .string t.kind), ("title", .string t.title),
    ("url", .string t.url), ("ws", Json.ofOption .string t.socket)]

def Target.toJson (t : Target) : Json := .object (t.toFields ++ [("isPage", .bool t.isPage)])

def Version.toJson (v : Version) : Json :=
  .array [.string v.browser, .string v.protocol, .string v.socket]

def Version.ofJson? (j : Json) : Option Version := do
  match ← Json.record ["Browser", "Protocol-Version", "webSocketDebuggerUrl"] 3 j with
  | [browser, protocol, socket] =>
    some ⟨← Json.required Json.asString browser, ← Json.required Json.asString protocol,
      ← Json.required Json.asString socket⟩
  | _ => none

def descriptionOfJson? (j : Json) : Option (Option String) := do
  match ← Json.record ["description"] 1 j with
  | [description] => Json.optional Json.asString description
  | _ => none

/-- The message of an exception: the description of what was thrown unless it is empty, or else
the summary. -/
def exceptionMessage? (j : Json) : Option String := do
  match ← Json.record ["text", "exception"] 2 j with
  | [text, thrown] =>
    let text ← Json.withDefault "" Json.asString text
    let thrown ← Json.optional descriptionOfJson? thrown
    some (((thrown.bind id).filter (· != "")).getD text)
  | _ => none

end BrowserScript.DevTools
