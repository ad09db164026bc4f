import BrowserScript.Text.Basic
import BrowserScript.XPath.Basic
import BrowserScript.XPath.Token

/-!
Reading expressions from tokens. What stands in brackets is read by a reader given beforehand; an
expression is read by that of the next lower depth, and no expression is deeper than it has
tokens. From loose to tight the levels are `or`, `and`, equality, order, sums, unions and paths;
all but unions group to the left.
-/

namespace BrowserScript.XPath

open Text (loop)

abbrev Reader (α : Type) : Type := Text.Reader Token α

/-- Operands joined by operators, grouped to the left. -/
def leftChain (operand : Reader Expr) (op : Token → Option (Expr → Expr → Expr)) : Reader Expr :=
  fun ts => do
    let (first, ts) ← operand ts
    loop (fun left ts =>
      match ts with
      | t :: rest =>
        match op t with
        | some join => (operand rest).map fun (right, rest) => some (join left right, rest)
        | none => some none
      | [] => some none) first ts

section Levels

variable (inner : Reader Expr)

/-- Expressions in brackets. -/
def predicates : Reader (List Expr) :=
  loop (fun found ts =>
    match ts with
    | .leftBracket :: ts =>
      match inner ts with
      | some (e, .rightBracket :: ts) => some (some (found ++ [e], ts))
      | _ => none
    | _ => some none) []

/-- Arguments up to the closing parenthesis, the opening one being read. -/
def arguments : Reader (List Expr)
  | .rightParen :: ts => some ([], ts)
  | ts => do
    let (first, ts) ← inner ts
    let (args, ts) ← loop (fun args (ts : List Token) =>
      match ts with
      | .comma :: ts => (inner ts).map fun (e, ts) => some (args ++ [e], ts)
      | _ => some none) [first] ts
    match ts with
    | .rightParen :: ts => some (args, ts)
    | _ => none

/-- What an expression is built from that is no path. A minus applies to the next one only. -/
def primary : Reader Expr
  | .leftParen :: ts =>
    match inner ts with
    | some (e, .rightParen :: ts) => some (e, ts)
    | _ => none
  | .literal s :: ts => some (.literal s, ts)
  | .number f :: ts => some (.number f, ts)
  | .minus :: ts => (primary ts).map fun (e, ts) => (.sub (.number 0) e, ts)
  | .name s :: .leftParen :: ts => do
    let f ← Function.named? s
    let (args, ts) ← arguments inner ts
    if f.admits args.length then some (.call f args, ts) else none
  | _ => none

/-- Names are compared in lower case. `text` and `node` are names unless parentheses follow. -/
def nodeTest : Reader NodeTest
  | .star :: ts => some (.any, ts)
  | .name "text" :: .leftParen :: ts =>
    match ts with
    | .rightParen :: ts => some (.text, ts)
    | _ => none
  | .name "node" :: .leftParen :: ts =>
    match ts with
    | .rightParen :: ts => some (.node, ts)
    | _ => none
  | .name s :: ts => some (.name (Text.asciiLowered s), ts)
  | _ => none

def axis : Reader Axis
  | .at :: ts => some (.attribute, ts)
  | .name s :: .twoColons :: ts => (Axis.named? s).map (·, ts)
  | ts => some (.child, ts)

def step : Reader Step
  | .dot :: ts => (predicates inner ts).map fun (ps, ts) => (.step .self .node ps, ts)
  | .twoDots :: ts => (predicates inner ts).map fun (ps, ts) => (.step .parent .node ps, ts)
  | ts => do
    let (axis, ts) ← axis ts
    let (test, ts) ← nodeTest ts
    let (ps, ts) ← predicates inner ts
    some (.step axis test ps, ts)

/-- Whether a step can begin here. A name before a parenthesis is a function. -/
def startsStep : List Token → Bool
  | .star :: _ | .at :: _ | .dot :: _ | .twoDots :: _ => true
  | .name s :: .leftParen :: _ => s == "text" || s == "node"
  | .name _ :: _ => true
  | _ => false

/-- Steps joined by slashes, at least one. -/
def steps : Reader (List Step) := fun ts => do
  let (first, ts) ← step inner ts
  loop (fun found ts =>
    match ts with
    | .slash :: ts => (step inner ts).map fun (s, ts) => some (found ++ [s], ts)
    | .doubleSlash :: ts =>
      (step inner ts).map fun (s, ts) => some (found ++ [.anywhere, s], ts)
    | _ => some none) [first] ts

/-- The steps that follow a filtered expression. -/
def stepsAfter : Reader (List Step)
  | .slash :: ts => steps inner ts
  | .doubleSlash :: ts => (steps inner ts).map fun (found, ts) => (.anywhere :: found, ts)
  | ts => some ([], ts)

def path : Reader Expr
  | .slash :: ts =>
    if startsStep ts then (steps inner ts).map fun (found, ts) => (.path true found, ts)
    else some (.path true [], ts)
  | .doubleSlash :: ts =>
    (steps inner ts).map fun (found, ts) => (.path true (.anywhere :: found), ts)
  | ts =>
    if startsStep ts then (steps inner ts).map fun (found, ts) => (.path false found, ts)
    else do
      let (e, ts) ← primary inner ts
      let (ps, ts) ← predicates inner ts
      let (found, ts) ← stepsAfter inner ts
      some (if ps.isEmpty && found.isEmpty then e else .filter e ps found, ts)

def union : Reader Expr := fun ts => do
  let (first, ts) ← path inner ts
  let (parts, ts) ← loop (fun parts (ts : List Token) =>
    match ts with
    | .pipe :: ts => (path inner ts).map fun (e, ts) => some (parts ++ [e], ts)
    | _ => some none) [first] ts
  some (if parts.length ≤ 1 then first else .union parts, ts)

def sum : Reader Expr :=
  leftChain (union inner) fun
    | .plus => some .add
    | .minus => some .sub
    | _ => none

def order : Reader Expr :=
  leftChain (sum inner) fun
    | .lt => some (.compare .lt)
    | .le => some (.compare .le)
    | .gt => some (.compare .gt)
    | .ge => some (.compare .ge)
    | _ => none

def equality : Reader Expr :=
  leftChain (order inner) fun
    | .eq => some (.compare .eq)
    | .ne => some (.compare .ne)
    | _ => none

def conjunction : Reader Expr :=
  leftChain (equality inner) fun
    | .name "and" => some .and
    | _ => none

def disjunction : Reader Expr :=
  leftChain (conjunction inner) fun
    | .name "or" => some .or
    | _ => none

end Levels

/-- An expression with brackets at most `depth` deep. -/
def expr : Nat → Reader Expr
  | 0 => fun _ => none
  | depth + 1 => disjunction (expr depth)

/-- The expression that all the tokens make. -/
def Expr.ofTokens? (ts : List Token) : Option Expr :=
  match expr (ts.length + 1) ts with
  | some (e, []) => some e
  | _ => none

def Expr.parse? (text : String) : Option Expr := (tokens? text.toList).bind Expr.ofTokens?

end BrowserScript.XPath
