import BrowserScript.Verification.Reading

/-!
Verifications checked once, as a step of a script. A page error makes the check fail.
-/

namespace BrowserScript.Verification

open Page (Handle Access)

/-- Compare and put the result into words. -/
def judge (subject noun : String) (op : Operator) (expected actual : String) : Outcome :=
  let found : Outcome :=
    match op.holds? actual expected with
    | none => .fail ("Unknown operator: " ++ op.word)
    | some true =>
      .pass ("Verification passed: " ++ subject ++ " " ++ op.phrase ++ " " ++ quoted expected)
    | some false =>
      .fail ("Verification failed: Expected " ++ noun ++ " to " ++ op.phrase ++ " "
        ++ quoted expected ++ ", got " ++ quoted actual)
  found.withActual actual

def stateHolds (state : ElementState) (el : Handle) : Access Bool :=
  match state with
  | .visible => return (← Page.visibility el).isVisible
  | .hidden => return !(← Page.visibility el).isVisible
  | .enabled => return !(← isTruthy el "disabled")
  | .disabled => isTrue el "disabled"
  | .checked => isTrue el "checked"

def checkState (state : ElementState) (el : Option Handle) : Access Outcome := do
  match ← attached el with
  | none =>
    return if state = .hidden then hiddenBecauseAbsent
      else .fail "Element not found for state verification"
  | some el =>
    return if ← stateHolds state el then .pass ("Verification passed: Element is " ++ state.word)
      else .fail ("Verification failed: Element is not " ++ state.word)

/-- Check against the element that was found, if the verification needs one. -/
def checkAccess (v : Verification) (el : Option Handle) : Access Outcome :=
  match v, el with
  | .text .., none => return .fail "Element not found for text verification"
  | .text op expected _, some el => return judge "Text" "text" op expected (← shownText el)
  | .attribute subject .., none =>
    return .fail ("Element not found for " ++ subject.word ++ " verification")
  | .attribute subject op expected _, some el =>
    return judge subject.word subject.word op expected (← attributeValue el subject)
  | .state s _, el => checkState s el
  | .page .title op expected, _ =>
    return judge "Page title" "title" op expected (← pageText .title)
  | .page .url op expected, _ => return judge "URL" "URL" op expected (← pageText .url)

def check (v : Verification) (el : Option Handle) : Prog Page.signature Outcome :=
  (checkAccess v el).result.bind fun
    | .ok found => .done found
    | .error e => .done (.fail ("Verification failed: " ++ e.message))

end BrowserScript.Verification
