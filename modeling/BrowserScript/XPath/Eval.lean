import BrowserScript.XPath.Parser
import BrowserScript.Dom.Basic

/-!
Values of expressions. Node sets are kept in document order without repetition; nodes that are no
longer part of the document come after those that are. An expression that needs a node set and
gets another value has no value.
-/

namespace BrowserScript.XPath

open Dom (NodeId)

/-- A node, or an attribute of an element by its place. -/
inductive Item
  | node (n : NodeId)
  | attribute (owner : NodeId) (index : Nat)
deriving DecidableEq, Repr

inductive Value
  | nodes (items : List Item)
  | string (s : String)
  | number (f : Float)
  | bool (b : Bool)

structure Context where
  item : Item
  position : Nat
  size : Nat

/-- A document with the places of its nodes in document order. -/
structure Scope where
  dom : Dom
  places : Array (Option Nat)
  connected : Nat

def Scope.of (d : Dom) : Scope :=
  let nodes := (d.tree Dom.root).preorder
  let places := nodes.zipIdx.foldl (fun places (n, i) => places.setIfInBounds n (some i))
    (Array.replicate d.size none)
  ⟨d, places, nodes.length⟩

namespace Scope

variable (s : Scope)

def place (n : NodeId) : Nat := (s.places[n]?.join).getD (s.connected + n)

/-- An element comes before its attributes, and these before all that follows. -/
def key : Item → Nat × Nat
  | .node n => (s.place n, 0)
  | .attribute n i => (s.place n, i + 1)

def before (a b : Item) : Bool :=
  let (p, i) := s.key a
  let (q, j) := s.key b
  p < q || (p == q && i ≤ j)

def inOrder (items : List Item) : List Item := (items.mergeSort s.before).eraseReps

def stringValue : Item → String
  | .node n => s.dom.textContent n
  | .attribute n i => (((s.dom.element? n).bind (·.attributes[i]?)).map (·.2)).getD ""

end Scope

/-! ## Conversions and comparisons -/

/-- A text as a number; one that is none is no number. -/
def numberOf (s : String) : Float :=
  (Decimal.float? (Text.trim s.toList)).getD (0.0 / 0.0)

namespace Value

variable (s : Scope)

def toText : Value → String
  | .nodes items => ((s.inOrder items).head?.map s.stringValue).getD ""
  | .string t => t
  | .number f => Decimal.clamped f
  | .bool b => if b then "true" else "false"

def toNumber : Value → Float
  | .number f => f
  | .bool b => if b then 1 else 0
  | v => numberOf (v.toText s)

def toBool : Value → Bool
  | .nodes items => !items.isEmpty
  | .string t => t != ""
  | .number f => !(f == 0) && !f.isNaN
  | .bool b => b

def equal : Value → Value → Bool
  | .bool a, b => a == b.toBool
  | a, .bool b => a.toBool == b
  | .number a, b => a == b.toNumber s
  | a, .number b => a.toNumber s == b
  | a, b => a.toText s == b.toText s

/-- Compare two values of which none is a node set. -/
def compareSingle (op : Comparison) (a b : Value) : Bool :=
  match op with
  | .eq => equal s a b
  | .ne => !equal s a b
  | .lt => a.toNumber s < b.toNumber s
  | .le => a.toNumber s ≤ b.toNumber s
  | .gt => b.toNumber s < a.toNumber s
  | .ge => b.toNumber s ≤ a.toNumber s

/-- The value of a node, as a number where it is compared with one. -/
def ofItem (item : Item) (like : Value) : Value :=
  match like with
  | .number _ => .number (numberOf (s.stringValue item))
  | _ => .string (s.stringValue item)

/-- A node set compares as some of its nodes does; with a truth value it compares as a whole. -/
def compare (op : Comparison) (a b : Value) : Bool :=
  match a, b with
  | .nodes xs, .nodes ys =>
    xs.any fun x => ys.any fun y =>
      compareSingle s op (.string (s.stringValue x)) (.string (s.stringValue y))
  | .nodes xs, .bool y => compareSingle s op (.bool !xs.isEmpty) (.bool y)
  | .bool x, .nodes ys => compareSingle s op (.bool x) (.bool !ys.isEmpty)
  | .nodes xs, y => xs.any fun x => compareSingle s op (ofItem s x y) y
  | x, .nodes ys => ys.any fun y => compareSingle s op x (ofItem s y x)
  | x, y => compareSingle s op x y

end Value

/-! ## Functions -/

/-- Replace each character of `source` by its counterpart; those without one are left out. -/
def translate (source kept by_ : List Char) : List Char :=
  source.filterMap fun c =>
    match kept.idxOf? c with
    | some i => by_[i]?
    | none => some c

def Function.apply (s : Scope) (ctx : Context) (f : Function) (args : List Value) :
    Option Value :=
  let text (i : Nat) : String :=
    match args[i]? with
    | some v => v.toText s
    | none => s.stringValue ctx.item
  match f with
  | .contains => some (.bool (Text.occursIn (text 1) (text 0)))
  | .startsWith => some (.bool (Text.startsWith (text 0) (text 1)))
  | .normalizeSpace => some (.string (Text.collapse (text 0)))
  | .string => some (.string (text 0))
  | .stringLength => some (.number (Float.ofNat (text 0).length))
  | .concat => some (.string (String.join (args.map (·.toText s))))
  | .translate =>
    some (.string (String.ofList (XPath.translate (text 0).toList (text 1).toList (text 2).toList)))
  | .not => args.head?.map fun v => .bool !v.toBool
  | .boolean => args.head?.map fun v => .bool v.toBool
  | .number =>
    match args with
    | v :: _ => some (.number (v.toNumber s))
    | [] => some (.number (numberOf (s.stringValue ctx.item)))
  | .true => some (.bool Bool.true)
  | .false => some (.bool Bool.false)
  | .position => some (.number (Float.ofNat ctx.position))
  | .last => some (.number (Float.ofNat ctx.size))
  | .count =>
    match args with
    | .nodes items :: _ => some (.number (Float.ofNat items.length))
    | _ => none

/-! ## Axes and tests -/

/-- The nodes along an axis, the nearest first. -/
def Axis.ofNode (d : Dom) (n : NodeId) : Axis → List Item
  | .child => (d.children n).map .node
  | .descendant => (d.descendants n).map .node
  | .descendantOrSelf => (n :: d.descendants n).map .node
  | .parent => (d.parent n).toList.map .node
  | .ancestor => (d.ancestors n).map .node
  | .ancestorOrSelf => (n :: d.ancestors n).map .node
  | .followingSibling =>
    (((d.parent n).map d.children).getD [] |>.dropWhile (· != n) |>.drop 1).map .node
  | .precedingSibling =>
    (((d.parent n).map d.children).getD [] |>.takeWhile (· != n)).reverse.map .node
  | .self => [.node n]
  | .attribute =>
    match d.element? n with
    | some e => (List.range e.attributes.length).map (.attribute n)
    | none => []

def Axis.along (d : Dom) (item : Item) (axis : Axis) : List Item :=
  match item with
  | .node n => axis.ofNode d n
  | .attribute n _ =>
    match axis with
    | .self => [item]
    | .parent => [.node n]
    | .ancestor => (n :: d.ancestors n).map .node
    | .ancestorOrSelf => item :: (n :: d.ancestors n).map .node
    | _ => []

def NodeTest.holds (d : Dom) (test : NodeTest) : Item → Bool
  | .node n =>
    match test with
    | .node => true
    | .text => (d.text? n).isSome
    | .any => d.isElement n
    | .name s => d.tag? n == some s
  | .attribute n i =>
    match test with
    | .any | .node => true
    | .text => false
    | .name s => ((d.element? n).bind (·.attributes[i]?)).any (·.1 == s)

/-! ## Evaluation -/

/-- Keep the items a predicate holds for, at their places among all; a number is a place. -/
def keep (predicate : Context → Option Value) (items : List Item) : Option (List Item) := do
  let kept ← items.zipIdx.mapM fun (item, i) => do
    let v ← predicate ⟨item, i + 1, items.length⟩
    let holds :=
      match v with
      | .number f => f == Float.ofNat (i + 1)
      | v => v.toBool
    some (if holds then [item] else [])
  some kept.flatten

def Value.nodes? : Value → Option (List Item)
  | .nodes items => some items
  | _ => none

mutual

def Expr.eval (s : Scope) : Expr → Context → Option Value
  | .or a b, ctx => do
    if (← a.eval s ctx).toBool then some (.bool true)
    else some (.bool (← b.eval s ctx).toBool)
  | .and a b, ctx => do
    if (← a.eval s ctx).toBool then some (.bool (← b.eval s ctx).toBool)
    else some (.bool false)
  | .compare op a b, ctx => do
    let x ← a.eval s ctx
    let y ← b.eval s ctx
    some (.bool (x.compare s op y))
  | .add a b, ctx => do
    let x ← a.eval s ctx
    let y ← b.eval s ctx
    some (.number (x.toNumber s + y.toNumber s))
  | .sub a b, ctx => do
    let x ← a.eval s ctx
    let y ← b.eval s ctx
    some (.number (x.toNumber s - y.toNumber s))
  | .union parts, ctx => do
    let found ← (← evalAll s parts ctx).mapM Value.nodes?
    some (.nodes (s.inOrder found.flatten))
  | .path absolute steps, ctx =>
    (applySteps s steps [if absolute then .node Dom.root else ctx.item]).map .nodes
  | .filter primary predicates steps, ctx => do
    let items ← (← primary.eval s ctx).nodes?
    let items ← applyPredicates s predicates (s.inOrder items)
    (applySteps s steps items).map .nodes
  | .literal t, _ => some (.string t)
  | .number f, _ => some (.number f)
  | .call f args, ctx => do f.apply s ctx (← evalAll s args ctx)

def evalAll (s : Scope) : List Expr → Context → Option (List Value)
  | [], _ => some []
  | e :: rest, ctx => do
    let v ← e.eval s ctx
    let vs ← evalAll s rest ctx
    some (v :: vs)

def applyPredicates (s : Scope) : List Expr → List Item → Option (List Item)
  | [], items => some items
  | p :: rest, items => do applyPredicates s rest (← keep (p.eval s) items)

/-- The items a step leads to from one item. -/
def Step.apply (s : Scope) : Step → Item → Option (List Item)
  | .step axis test predicates, item =>
    applyPredicates s predicates ((axis.along s.dom item).filter (test.holds s.dom))

def applySteps (s : Scope) : List Step → List Item → Option (List Item)
  | [], items => some items
  | st :: rest, items => do
    let found ← items.mapM (st.apply s)
    applySteps s rest (s.inOrder found.flatten)

end

/-- The elements an expression selects, from a node or from the document. -/
def select (d : Dom) (text : String) (context : Option NodeId) :
    Except Page.Error (List NodeId) :=
  let found := do
    let e ← Expr.parse? text
    (← e.eval (Scope.of d) ⟨.node (context.getD Dom.root), 1, 1⟩).nodes?
  match found with
  | some items =>
    .ok (items.filterMap fun
      | .node n => if d.isElement n then some n else none
      | .attribute .. => none)
  | none => .error (.invalidXPath text)

end BrowserScript.XPath
