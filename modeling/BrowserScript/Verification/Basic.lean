import BrowserScript.Text.Basic
import BrowserScript.Text.Search

/-!
Verifications: what is compared, how, and with what outcome.
-/

namespace BrowserScript

/-- What a verify statement looks at. A title is the page's when no element is named and the
attribute of that name otherwise. -/
inductive Subject
  | text | value | placeholder | href | src | alt | title | className | id | name
  | checked | selected | disabled | readonly | required | state | url
deriving DecidableEq, Repr

namespace Subject

def all : List Subject :=
  [.text, .value, .placeholder, .href, .src, .alt, .title, .className, .id, .name, .checked,
    .selected, .disabled, .readonly, .required, .state, .url]

def word : Subject → String
  | .text => "text"
  | .value => "value"
  | .placeholder => "placeholder"
  | .href => "href"
  | .src => "src"
  | .alt => "alt"
  | .title => "title"
  | .className => "class"
  | .id => "id"
  | .name => "name"
  | .checked => "checked"
  | .selected => "selected"
  | .disabled => "disabled"
  | .readonly => "readonly"
  | .required => "required"
  | .state => "state"
  | .url => "url"

def named? (s : String) : Option Subject := all.find? (·.word == s)

/-- The subject a word stands for, in any case and with blanks around it. -/
def parse? (s : String) : Option Subject := named? (Text.asciiLowered (Text.trimmed s))

end Subject

inductive Operator
  | equals | contains | startsWith | endsWith | is
deriving DecidableEq, Repr

namespace Operator

def all : List Operator := [.equals, .contains, .startsWith, .endsWith, .is]

def word : Operator → String
  | .equals => "equals"
  | .contains => "contains"
  | .startsWith => "starts_with"
  | .endsWith => "ends_with"
  | .is => "is"

/-- The operator as it reads in a sentence. -/
def phrase : Operator → String
  | .startsWith => "starts with"
  | .endsWith => "ends with"
  | other => other.word

def named? (s : String) : Option Operator := all.find? (·.word == s)

/-- The operator a phrase stands for, in any case, its words apart or joined by underscores. -/
def parse? (s : String) : Option Operator :=
  named? (Text.asciiLowered (String.ofList ((Text.words s.toList).intersperse ['_']).flatten))

/-- Compare two texts. `is` compares no texts. -/
def holds? (op : Operator) (actual expected : String) : Option Bool :=
  match op with
  | .equals => some (actual == expected)
  | .contains => some (Text.occursIn expected actual)
  | .startsWith => some (Text.startsWith actual expected)
  | .endsWith => some (Text.endsWith actual expected)
  | .is => none

end Operator

inductive ElementState
  | visible | enabled | checked | disabled | hidden
deriving DecidableEq, Repr

namespace ElementState

def all : List ElementState := [.visible, .enabled, .checked, .disabled, .hidden]

def word : ElementState → String
  | .visible => "visible"
  | .enabled => "enabled"
  | .checked => "checked"
  | .disabled => "disabled"
  | .hidden => "hidden"

def parse? (s : String) : Option ElementState :=
  all.find? (·.word == Text.asciiLowered (Text.trimmed s))

end ElementState

/-- A text of the page itself. -/
inductive PageText
  | title | url
deriving DecidableEq, Repr

def PageText.word : PageText → String
  | .title => "title"
  | .url => "url"

inductive Verification
  | text (operator : Operator) (expected : String) (locator : Option String)
  | attribute (subject : Subject) (operator : Operator) (expected : String)
      (locator : Option String)
  | state (state : ElementState) (locator : Option String)
  | page (target : PageText) (operator : Operator) (expected : String)
deriving DecidableEq, Repr

namespace Verification

def subject : Verification → Subject
  | .text .. => .text
  | .attribute subject .. => subject
  | .state .. => .state
  | .page .title .. => .title
  | .page .url .. => .url

def locator : Verification → Option String
  | .text _ _ locator => locator
  | .attribute _ _ _ locator => locator
  | .state _ locator => locator
  | .page .. => none

/-- What a check found. -/
structure Outcome where
  success : Bool
  message : String
  actual : Option String
deriving DecidableEq, Repr, Inhabited

def Outcome.pass (message : String) : Outcome := ⟨true, message, none⟩

def Outcome.fail (message : String) : Outcome := ⟨false, message, none⟩

def Outcome.withActual (o : Outcome) (actual : String) : Outcome := { o with actual := some actual }

end Verification

end BrowserScript
