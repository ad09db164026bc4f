import BrowserScript.Json.Decode
import BrowserScript.Page.Basic

/-!
Events, property values and visibility in JSON documents.
-/

namespace BrowserScript.Page

namespace Event

/-- Fields without a value are left out. -/
def toJson (e : Event) : Json :=
  .ofFields [("kind", some (.string e.kind.word)), ("bubbles", some (.bool e.bubbles)),
    ("cancelable", some (.bool e.cancelable)), ("button", e.button.map .int),
    ("key", e.key.map .string), ("keyCode", e.keyCode.map .ofNat)]

def ofJson? (j : Json) : Option Event := do
  let fields ← Json.record ["kind", "bubbles", "cancelable", "button", "key", "keyCode"] 3 j
  match fields with
  | [kind, bubbles, cancelable, button, key, keyCode] =>
    some {
      kind := ← Json.required (Json.asName EventKind.named?) kind
      bubbles := ← Json.required Json.asBool bubbles
      cancelable := ← Json.required Json.asBool cancelable
      button := ← Json.optional (Json.asInt 16) button
      key := ← Json.optional Json.asString key
      keyCode := ← Json.optional (Json.asNat (1 <<< 32)) keyCode }
  | _ => none

end Event

/-- Numbers that JSON cannot hold become null. -/
def PropertyValue.toJson : PropertyValue → Json
  | .bool b => .bool b
  | .number f => if f.isFinite then .float f else .null
  | .text s => .string s

def PropertyValue.ofJson? : Json → Option PropertyValue
  | .bool b => some (.bool b)
  | .string s => some (.text s)
  | j => (Json.asFloat j).map .number

def Visibility.ofJson? (j : Json) : Option Visibility := do
  let names := ["display", "visibility", "opacity", "width", "height", "hiddenClass"]
  match ← Json.record names 6 j with
  | [display, visibility, opacity, width, height, hiddenClass] =>
    some {
      display := ← Json.required Json.asString display
      visibility := ← Json.required Json.asString visibility
      opacity := ← Json.required Json.asFloat opacity
      width := ← Json.required Json.asFloat width
      height := ← Json.required Json.asFloat height
      hiddenClass := ← Json.required Json.asBool hiddenClass }
  | _ => none

def Change.toJson (c : Change) : Json :=
  .ofFields [("kind", some (.string c.kind.word)), ("target", some (.ofNat c.target.id)),
    ("attributeName", c.attributeName.map .string)]

end BrowserScript.Page
