import BrowserScript.Locator.Literal
import BrowserScript.Page.Request
import BrowserScript.Command.Basic
import BrowserScript.Text.Lowercase

/-!
Looking an element up by what a script calls it: an expression, a selector, the text of a label,
the text of a button or link, or what stands under a heading. An element that is not found is no
error, and neither is a page that cannot answer.
-/

namespace BrowserScript.Locator

open Page (Handle Access)

/-- The first result that is there. -/
def firstSome (f : α → Access (Option β)) : List α → Access (Option β)
  | [] => return none
  | a :: rest => do
    match ← f a with
    | some b => return some b
    | none => firstSome f rest

/-- The first item that passes. -/
def firstWhere (p : α → Access Bool) : List α → Access (Option α)
  | [] => return none
  | a :: rest => do if ← p a then return some a else firstWhere p rest

def trimmedText (el : Handle) : Access String := return Text.trimmed (← Page.text el)

/-- A description without blanks and quotes around it. -/
def bare (description : String) : String :=
  Text.trimmed (Command.unquote (Text.trimmed description))

/-- What a label is for, none if it names nothing. -/
def labelledId (label : Handle) : Access (Option String) :=
  return (← Page.attributeOf label "for").filter (· != "")

/-- The button or link whose text passes. -/
def buttonWhere (p : String → Bool) : Access (Option Handle) := do
  firstWhere (fun el => return p (← trimmedText el)) (← Page.all "button, a")

/-- What the first label with the text stands for; a label that names nothing stands for
itself. -/
def byLabel (description : String) : Access (Option Handle) := do
  let labels ← Page.all "label"
  let label ← firstWhere (fun el => return Text.occursIn description (← trimmedText el)) labels
  match label with
  | none => return none
  | some label =>
    match ← labelledId label with
    | none => return some label
    | some id => Page.byId id

/-- One attempt to find an element: as an expression, a selector, a label and a button, in this
order. -/
def attempt (description : String) : Access (Option Handle) := do
  let byPath ←
    if Text.startsWith description "//" then pure (← Page.xpath description none).head?
    else pure none
  if let some el := byPath then return some el
  if let some el ← Access.orElse (Page.first description) none then return some el
  if let some el ← byLabel description then return some el
  buttonWhere (Text.occursIn description)

/-- The form controls below an element. -/
def controls : String := ".//input | .//select | .//textarea"

/-- The control a label with the text belongs to, in any letter case. -/
def labelTarget (needle : String) : Access (Option Handle) := do
  let target (label : Handle) : Access (Option Handle) := do
    if !Text.occursIn needle (Text.lowered (← trimmedText label)) then return none
    let named ←
      match ← labelledId label with
      | some id => Page.byId id
      | none => pure none
    if let some el := named then return some el
    return (← Page.xpath controls (some label)).head?
  firstSome target (← Page.all "label")

/-- The text without colons at its end. -/
def withoutColons (s : String) : String :=
  String.ofList ((s.toList.reverse.dropWhile (· == ':')).reverse)

/-- An element by its description in any letter case: labels, with a colon and without, then
buttons, and a selector if it fits one element only. -/
def described (description : String) : Access (Option Handle) := do
  let needle := withoutColons (Text.lowered description)
  if let some el ← firstSome labelTarget [needle ++ ":", needle] then return some el
  if let some el ← buttonWhere fun t => Text.occursIn needle (Text.lowered t) then
    return some el
  match ← Access.orElse (Page.all description) [] with
  | [el] => return some el
  | _ => return none

/-! ## Below headings -/

def headingTags : List String := ["h1", "h2", "h3", "h4", "h5", "h6", "label", "span", "div"]

/-- All elements with the text in their first text node. -/
def headingPath (heading : String) : String :=
  "//*[contains(text(), " ++ literal heading ++ ")]"

/-- The elements with the text, in one of their texts or shown attributes, below the ancestor
that is so many steps up. -/
def sectionPath (depth : Nat) (target : String) : String :=
  let t := literal target
  "." ++ String.join (List.replicate depth "/..") ++ "//*[contains(text(), " ++ t ++ ") or @value="
    ++ t ++ " or @title=" ++ t ++ " or @alt=" ++ t ++ " or @placeholder=" ++ t ++ "]"

/-- The target in the section of the first heading that has it. -/
def underHeading (heading target : String) (depth : Nat) : Access (Option Handle) := do
  let heading := Command.unquote (Text.trimmed heading)
  let target := Command.unquote (Text.trimmed target)
  let found ← Page.xpath (headingPath heading) none
  firstSome (fun candidate => do
    if headingTags.contains (← Page.tag candidate) then
      return (← Page.xpath (sectionPath depth target) (some candidate)).head?
    else return none) found

/-! ## Lookups -/

/-- The element found, none also when the page could not answer. -/
def found (lookup : Access (Option Handle)) : Prog Page.signature (Option Handle) :=
  (Access.result lookup).bind fun
    | .ok el => .done el
    | .error _ => .done none

def findDescribed (description : String) : Prog Page.signature (Option Handle) :=
  found (described (bare description))

def findUnderHeading (heading target : String) (depth : Nat) :
    Prog Page.signature (Option Handle) :=
  found (underHeading heading target depth)

/-- How often an element is looked for, and how long to wait after each miss, in milliseconds.
No retries still mean one attempt, which is not waited after. -/
structure Patience where
  retries : Nat
  delay : Nat
deriving DecidableEq, Repr

def Patience.once : Patience := ⟨0, 0⟩

/-- Attempts with a pause after each miss. -/
def findWithin (description : String) (delay : Nat) : Nat → Prog Page.timed (Option Handle)
  | 0 => return none
  | attempts + 1 => do
    if let some el ← found (attempt description) then return some el
    sleep delay
    findWithin description delay attempts

def find (patience : Patience) (description : String) : Prog Page.timed (Option Handle) :=
  if patience.retries = 0 then liftM (found (attempt (bare description)))
  else findWithin (bare description) patience.delay patience.retries

end BrowserScript.Locator
