import BrowserScript.Verification.Basic

/-!
Commands: the words of one script line in normal form, and the tree that indentation makes of
them.
-/

namespace BrowserScript

/-- One script line. `line` counts from zero, `timeout` is in milliseconds. -/
structure Command where
  line : Nat
  code : List String
  src : String
  timeout : Nat
  verifyType : Option Subject := none
  verifyOperator : Option Operator := none
  verifyExpected : Option String := none
  verifyLocator : Option String := none
  verifyTarget : Option String := none
  /-- The heading of the `under` line the command stands below. -/
  header : Option String := none
deriving DecidableEq, Repr

/-- A command with the commands indented below it. -/
inductive Block
  | node (command : Command) (body : List Block)

namespace Block

def command : Block → Command
  | .node c _ => c

def body : Block → List Block
  | .node _ b => b

mutual

/-- The commands in script order. -/
def preorder : Block → List Command
  | .node c body => c :: preorderAll body

def preorderAll : List Block → List Command
  | [] => []
  | b :: rest => preorder b ++ preorderAll rest

end

mutual

def size : Block → Nat
  | .node _ body => 1 + sizeAll body

/-- How many commands there are, nested ones included. -/
def sizeAll : List Block → Nat
  | [] => 0
  | b :: rest => size b + sizeAll rest

end

end Block

namespace Command

/-- The connective that introduces a locator. -/
def connective : String := "in"

/-- Whether a word is wrapped in a pair of equal quotes. -/
def isQuoted (word : String) : Bool :=
  let cs := word.toList
  2 ≤ cs.length
    && ((cs.head? == some '"' && cs.getLast? == some '"')
      || (cs.head? == some '\'' && cs.getLast? == some '\''))

/-- A word without the pair of quotes around it. -/
def unquote (word : String) : String :=
  if isQuoted word then String.ofList (word.toList.drop 1).dropLast else word

def verb (c : Command) : Option String := c.code.head?

/-- The command with one more word. -/
def push (c : Command) (word : String) : Command := { c with code := c.code ++ [word] }

def isVerify (c : Command) : Bool := c.verb == some "verify"

/-- Where the first connective stands. -/
def inIndex (c : Command) : Option Nat := c.code.findIdx? (· == connective)

/-- The word after the first connective. -/
def operand (c : Command) : Option String := c.inIndex.bind fun i => c.code[i + 1]?

def locator (c : Command) : Option String := c.operand.map unquote

/-- The word after the verb, unless it is a connective. -/
def value (c : Command) : Option String :=
  (c.code[1]?.filter (· != connective)).map unquote

/-- The quoted words, without their quotes. -/
def quotedLiterals (c : Command) : List String := (c.code.filter isQuoted).map unquote

end Command

end BrowserScript
