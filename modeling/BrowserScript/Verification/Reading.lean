import BrowserScript.Page.Request
import BrowserScript.Verification.Basic

/-!
What verifications read from a page.
-/

namespace BrowserScript.Verification

open Page (Handle Access PropertyValue)

/-- The property a subject is read from. -/
def propertyName : Subject → String
  | .className => "className"
  | .readonly => "readOnly"
  | other => other.word

/-- The property, or the attribute where there is no such property, without blanks around it. -/
def attributeValue (el : Handle) (subject : Subject) : Access String := do
  match ← Page.property el (propertyName subject) with
  | some value => return Text.trimmed value.toText
  | none => return Text.trimmed ((← Page.attributeOf el subject.word).getD "")

def pageText : PageText → Access String
  | .title => Page.title
  | .url => Page.url

def shownText (el : Handle) : Access String := return Text.trimmed (← Page.innerText el)

/-- Whether a property is the truth value true. -/
def isTrue (el : Handle) (name : String) : Access Bool :=
  return (← Page.property el name).any PropertyValue.isTrue

def isTruthy (el : Handle) (name : String) : Access Bool :=
  return (← Page.property el name).any PropertyValue.isTruthy

/-- The element if it is part of the document. -/
def attached : Option Handle → Access (Option Handle)
  | none => return none
  | some el => return if ← Page.isAttached el then some el else none

def quoted (s : String) : String := "\"" ++ s ++ "\""

def hiddenBecauseAbsent : Outcome :=
  .pass "State verification passed: element is hidden (not in DOM)"

end BrowserScript.Verification
