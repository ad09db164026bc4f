import BrowserScript.Dom.Basic

/-!
Selectors: tag, `#id`, `.class` and attribute tests, joined by descent and childhood, in groups.
A group selects an element when its last part fits the element and the parts before fit ancestors.
-/

namespace BrowserScript

namespace Selector

/-- A test of an attribute: that it is there, or that it has a value. -/
structure AttributeTest where
  name : String
  value : Option String := none
deriving DecidableEq, Repr

structure Compound where
  tag : Option String := none
  id : Option String := none
  classes : List String := []
  attributes : List AttributeTest := []
deriving DecidableEq, Repr

inductive Combinator
  | descendant | child
deriving DecidableEq, Repr

inductive Chain
  | one (c : Compound)
  | next (front : Chain) (combinator : Combinator) (last : Compound)
deriving DecidableEq, Repr

end Selector

/-- The groups of a selector. -/
structure Selector where
  chains : List Selector.Chain
deriving DecidableEq, Repr

namespace Selector

open Dom (NodeId)

def AttributeTest.holds (t : AttributeTest) (d : Dom) (n : NodeId) : Bool :=
  match d.attribute? n t.name, t.value with
  | none, _ => false
  | some _, none => true
  | some v, some wanted => v == wanted

def Compound.holds (c : Compound) (d : Dom) (n : NodeId) : Bool :=
  match d.element? n with
  | none => false
  | some e =>
    c.tag.all (· == e.tag) && c.id.all (d.attribute? n "id" == some ·)
      && c.classes.all (d.classes n).contains && c.attributes.all (·.holds d n)

def Chain.holds (d : Dom) : Chain → NodeId → Bool
  | .one c, n => c.holds d n
  | .next front .child c, n => c.holds d n && (d.parent n).any (front.holds d)
  | .next front .descendant c, n => c.holds d n && (d.ancestors n).any (front.holds d)

def holds (s : Selector) (d : Dom) (n : NodeId) : Bool := s.chains.any fun c => c.holds d n

/-- The elements below a node that the selector fits, in document order. -/
def select (s : Selector) (d : Dom) (base : NodeId) : List NodeId :=
  (d.descendantElements base).filter fun n => s.holds d n

end Selector

end BrowserScript
