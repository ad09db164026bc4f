/-!
Expressions over documents: location paths, comparisons, sums, unions and the core functions.
-/

namespace BrowserScript.XPath

inductive Comparison
  | eq | ne | lt | le | gt | ge
deriving DecidableEq, Repr

inductive Axis
  | child | descendant | descendantOrSelf | parent | ancestor | ancestorOrSelf
  | followingSibling | precedingSibling | self | attribute
deriving DecidableEq, Repr

namespace Axis

def all : List Axis :=
  [.child, .descendant, .descendantOrSelf, .parent, .ancestor, .ancestorOrSelf,
    .followingSibling, .precedingSibling, .self, .attribute]

def word : Axis → String
  | .child => "child"
  | .descendant => "descendant"
  | .descendantOrSelf => "descendant-or-self"
  | .parent => "parent"
  | .ancestor => "ancestor"
  | .ancestorOrSelf => "ancestor-or-self"
  | .followingSibling => "following-sibling"
  | .precedingSibling => "preceding-sibling"
  | .self => "self"
  | .attribute => "attribute"

def named? (s : String) : Option Axis := all.find? (·.word == s)

end Axis

inductive NodeTest
  | name (s : String)
  /-- Any element or attribute. -/
  | any
  | text
  | node
deriving DecidableEq, Repr

inductive Function
  | contains | startsWith | normalizeSpace | string | stringLength | concat | translate
  | not | boolean | number | true | false | position | last | count
deriving DecidableEq, Repr

namespace Function

def all : List Function :=
  [.contains, .startsWith, .normalizeSpace, .string, .stringLength, .concat, .translate, .not,
    .boolean, .number, .true, .false, .position, .last, .count]

def word : Function → String
  | .contains => "contains"
  | .startsWith => "starts-with"
  | .normalizeSpace => "normalize-space"
  | .string => "string"
  | .stringLength => "string-length"
  | .concat => "concat"
  | .translate => "translate"
  | .not => "not"
  | .boolean => "boolean"
  | .number => "number"
  | .true => "true"
  | .false => "false"
  | .position => "position"
  | .last => "last"
  | .count => "count"

def named? (s : String) : Option Function := all.find? (·.word == s)

/-- Whether the function takes so many arguments. -/
def admits (f : Function) (n : Nat) : Bool :=
  match f with
  | .contains | .startsWith => n == 2
  | .normalizeSpace | .string | .stringLength | .number => n ≤ 1
  | .concat => 2 ≤ n
  | .translate => n == 3
  | .not | .boolean | .count => n == 1
  | .true | .false | .position | .last => n == 0

end Function

mutual

inductive Expr
  | or (a b : Expr)
  | and (a b : Expr)
  | compare (op : Comparison) (a b : Expr)
  | add (a b : Expr)
  | sub (a b : Expr)
  | union (parts : List Expr)
  /-- A location path from the document or from the context. -/
  | path (absolute : Bool) (steps : List Step)
  /-- Nodes of an expression, filtered, and a path from each of them. -/
  | filter (primary : Expr) (predicates : List Expr) (steps : List Step)
  | literal (s : String)
  | number (f : Float)
  | call (f : Function) (args : List Expr)

inductive Step
  | step (axis : Axis) (test : NodeTest) (predicates : List Expr)

end

/-- What two slashes stand for. -/
def Step.anywhere : Step := .step .descendantOrSelf .node []

end BrowserScript.XPath
