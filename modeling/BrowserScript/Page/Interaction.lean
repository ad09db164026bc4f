import BrowserScript.Locator.Literal
import BrowserScript.Page.Request

/-!
Interactions as a user makes them: each is the series of changes and events that the real thing
would cause.
-/

namespace BrowserScript.Page

def click (el : Handle) : Access Unit := dispatch (.element el) (.mouse .click)

/-- Clear a form control and fill it. -/
def typeText (el : Handle) (value : String) : Access Unit := do
  focus el
  setProperty el "value" (.text "")
  dispatch (.element el) (.plain .input true)
  setProperty el "value" (.text value)
  dispatch (.element el) (.plain .change true)
  blur el

/-- The options that carry the value as an attribute. -/
def optionPath (value : String) : String := ".//option[@value=" ++ Locator.literal value ++ "]"

/-- Choose the option of a value in a selection list. -/
def select (el : Handle) (value : String) : Access Unit := do
  focus el
  setProperty el "value" (.text value)
  if let option :: _ ← xpath (optionPath value) (some el) then
    setProperty option "selected" (.bool true)
  dispatch (.element el) (.plain .change true)

def mouseover (el : Handle) : Access Unit := do
  dispatch (.element el) (.mouse .mouseenter)
  dispatch (.element el) (.mouse .mouseleave)

def press (target : EventTarget) (key : String) : Access Unit := do
  dispatch target (.keyboard .keydown key)
  dispatch target (.keyboard .keyup key)

end BrowserScript.Page
