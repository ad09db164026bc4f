import BrowserScript.Page.Basic
import BrowserScript.Text.Basic
import BrowserScript.Text.Search

/-!
Documents as arenas of nodes. Nodes are numbered in the order of their creation, the document
itself being node 0; a parent is always created before its children. Nodes are never taken out of
the arena, they only leave their parent.
-/

namespace BrowserScript

namespace Dom

abbrev NodeId := Nat

structure Element where
  tag : String
  /-- Attributes in source order. -/
  attributes : List (String × String) := []
  /-- Properties that were set and no longer follow the attributes. -/
  properties : List (String × Page.PropertyValue) := []
  /-- The size of the box, if it was given. -/
  size : Option (Float × Float) := none
deriving Inhabited

inductive Kind
  | document
  | element (e : Element)
  | text (s : String)

structure Node where
  parent : Option NodeId := none
  children : List NodeId := []
  kind : Kind

end Dom

structure Dom where
  nodes : Array Dom.Node

namespace Dom

def root : NodeId := 0

def empty : Dom := ⟨#[{ kind := .document }]⟩

def size (d : Dom) : Nat := d.nodes.size

def parent (d : Dom) (n : NodeId) : Option NodeId := d.nodes[n]?.bind (·.parent)

def children (d : Dom) (n : NodeId) : List NodeId := (d.nodes[n]?.map (·.children)).getD []

def element? (d : Dom) (n : NodeId) : Option Element :=
  match d.nodes[n]? with
  | some ⟨_, _, .element e⟩ => some e
  | _ => none

def text? (d : Dom) (n : NodeId) : Option String :=
  match d.nodes[n]? with
  | some ⟨_, _, .text s⟩ => some s
  | _ => none

def isElement (d : Dom) (n : NodeId) : Bool := (d.element? n).isSome

def tag? (d : Dom) (n : NodeId) : Option String := (d.element? n).map (·.tag)

def Element.attribute? (e : Element) (name : String) : Option String :=
  (e.attributes.find? (·.1 == name)).map (·.2)

def Element.property? (e : Element) (name : String) : Option Page.PropertyValue :=
  (e.properties.find? (·.1 == name)).map (·.2)

def attribute? (d : Dom) (n : NodeId) (name : String) : Option String :=
  (d.element? n).bind (·.attribute? name)

def hasAttribute (d : Dom) (n : NodeId) (name : String) : Bool := (d.attribute? n name).isSome

def modify (d : Dom) (n : NodeId) (f : Node → Node) : Dom := ⟨d.nodes.modify n f⟩

def modifyElement (d : Dom) (n : NodeId) (f : Element → Element) : Dom :=
  d.modify n fun node =>
    match node.kind with
    | .element e => { node with kind := .element (f e) }
    | _ => node

/-- A new node as the last child of a node. -/
def create (d : Dom) (parent : NodeId) (kind : Kind) : Dom :=
  let id := d.size
  modify ⟨d.nodes.push { parent := some parent, kind }⟩ parent
    fun node => { node with children := node.children ++ [id] }

/-- A new element; its number is the size the arena had before. -/
def createElement (d : Dom) (parent : NodeId) (tag : String) (attributes : List (String × String)) :
    Dom :=
  d.create parent (.element { tag, attributes })

def createText (d : Dom) (parent : NodeId) (s : String) : Dom := d.create parent (.text s)

/-- Take a node out of its parent. What is below it stays below it. -/
def detach (d : Dom) (n : NodeId) : Dom :=
  match d.parent n with
  | none => d
  | some p =>
    (d.modify n fun node => { node with parent := none }).modify p
      fun node => { node with children := node.children.filter (· != n) }

def putPair (name : String) (value : β) : List (String × β) → List (String × β)
  | [] => [(name, value)]
  | (n, v) :: rest => if n = name then (n, value) :: rest else (n, v) :: putPair name value rest

def setAttribute (d : Dom) (n : NodeId) (name value : String) : Dom :=
  d.modifyElement n fun e => { e with attributes := putPair name value e.attributes }

def removeAttribute (d : Dom) (n : NodeId) (name : String) : Dom :=
  d.modifyElement n fun e => { e with attributes := e.attributes.filter (·.1 != name) }

def setProperty (d : Dom) (n : NodeId) (name : String) (value : Page.PropertyValue) : Dom :=
  d.modifyElement n fun e => { e with properties := putPair name value e.properties }

def classes (d : Dom) (n : NodeId) : List String :=
  match d.attribute? n "class" with
  | some c => (Text.words c.toList).map String.ofList
  | none => []

/-! ## Ancestors and descendants -/

/-- From the parent up to the document. -/
def ancestors (d : Dom) (n : NodeId) : List NodeId :=
  match d.parent n with
  | none => []
  | some p => if p < n then p :: ancestors d p else []
termination_by n

/-- A node with all that is below it. -/
inductive Tree
  | node (id : NodeId) (children : List Tree)

namespace Tree

def id : Tree → NodeId
  | .node id _ => id

def children : Tree → List Tree
  | .node _ ts => ts

mutual

/-- The nodes in document order. -/
def preorder : Tree → List NodeId
  | .node id ts => id :: preorderAll ts

def preorderAll : List Tree → List NodeId
  | [] => []
  | t :: ts => preorder t ++ preorderAll ts

end

end Tree

/-- The tree below a node. Children come after their parent in the arena. -/
def tree (d : Dom) (n : NodeId) : Tree :=
  .node n <| (d.children n).filterMap fun c =>
    if _h : n < c ∧ c < d.size then some (tree d c) else none
termination_by d.size - n
decreasing_by exact Nat.sub_lt_sub_left (Nat.lt_trans _h.1 _h.2) _h.1

def descendants (d : Dom) (n : NodeId) : List NodeId := Tree.preorderAll (d.tree n).children

def descendantElements (d : Dom) (n : NodeId) : List NodeId :=
  (d.descendants n).filter d.isElement

/-- Whether a node is the document or below it. -/
def isConnected (d : Dom) (n : NodeId) : Bool :=
  n == root || (d.ancestors n).getLast? == some root

/-- The texts of a node and of all below it, one after another. -/
def textContent (d : Dom) (n : NodeId) : String :=
  match d.text? n with
  | some s => s
  | none => String.join ((d.descendants n).filterMap d.text?)

def firstByTag (d : Dom) (tag : String) : Option NodeId :=
  (d.descendantElements root).find? fun n => d.tag? n == some tag

def byId (d : Dom) (id : String) : Option NodeId :=
  (d.descendantElements root).find? fun n => d.attribute? n "id" == some id

end Dom

end BrowserScript
