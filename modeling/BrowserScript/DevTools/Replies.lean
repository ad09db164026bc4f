import BrowserScript.DevTools.Message

/-!
Calls that are answered with written replies, one after the other.
-/

namespace BrowserScript.DevTools

structure Replies where
  coming : List Json
  /-- The calls so far, the latest first. -/
  calls : List Call := []
  now : Nat := 0

namespace Replies

/-- What a written reply says: a value, an exception, a whole result or a failure. -/
def answer (j : Json) : Except Error Json :=
  match j.field? "value", j.field? "throw", j.field? "result" with
  | some v, _, _ => .ok (.object [("result", .object [("value", v)])])
  | none, some details, _ => .ok (.object [("result", .object []), ("exceptionDetails", details)])
  | none, none, some result => .ok result
  | none, none, none => .error ((Error.ofJson? (j.field "fail")).getD .sessionClosed)

/-- When none is left the reply is null. -/
def serve : (r : surroundings.Request) → StateM Replies (surroundings.Answer r)
  | .inl c => modifyGet fun w =>
    (answer (w.coming.head?.getD (.object [("value", .null)])),
      { w with coming := w.coming.tail, calls := c :: w.calls })
  | .inr .now => return (← get).now
  | .inr (.sleep ms) => modify fun w => { w with now := w.now + ms }

end Replies

end BrowserScript.DevTools
