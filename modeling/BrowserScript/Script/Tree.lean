import BrowserScript.Script.Line

/-!
The tree of a script. A line belongs to the nearest line above it that is indented less; lines
directly below an `under` line carry its heading. Blank lines say nothing.
-/

namespace BrowserScript.Script

/-- The leading blanks of a line. -/
def indent (text : List Char) : Nat := (text.takeWhile Text.isBlank).length

/-- A command of the script with its indentation. -/
structure Entry where
  indent : Nat
  command : Command

/-- The commands of the lines that are not blank, the first line having the given number. -/
def entriesFrom (keywords : KeywordSet) (timeout line : Nat) : List (List Char) → List Entry
  | [] => []
  | text :: rest =>
    match parseLine? keywords timeout line text with
    | some c => ⟨indent text, c⟩ :: entriesFrom keywords timeout (line + 1) rest
    | none => entriesFrom keywords timeout (line + 1) rest

def entries (keywords : KeywordSet) (timeout : Nat) (script : String) : List Entry :=
  entriesFrom keywords timeout 0 (Text.splitOn '\n' script.toList)

/-- A command as it stands below another, or at the top. -/
def placed (parent : Option Command) (c : Command) : Command :=
  match parent with
  | some p => if p.verb == some "under" then { c with header := p.quotedLiterals.head? } else c
  | none => c

/-- A block to which lines may still be added. Those it has stand in reverse. -/
structure OpenBlock extends Entry where
  below : List Block := []

def OpenBlock.close (parent : Option Command) (b : OpenBlock) : Block :=
  .node (placed parent b.command) b.below.reverse

/-- A tree that is being built: the open blocks, the innermost first, and the closed top-level
blocks in reverse. -/
structure Builder where
  stack : List OpenBlock := []
  roots : List Block := []

namespace Builder

/-- Close the innermost block. It goes to the block around it. -/
def close (t : Builder) : Builder :=
  match t.stack with
  | [] => t
  | [b] => ⟨[], b.close none :: t.roots⟩
  | b :: outer :: rest =>
    { t with
      stack := { outer with below := b.close (some outer.command) :: outer.below } :: rest }

theorem close_length (t : Builder) : t.close.stack.length = t.stack.length - 1 := by
  rcases t with ⟨_ | ⟨b, _ | ⟨outer, rest⟩⟩, roots⟩ <;> rfl

/-- Close the innermost blocks for which this holds. -/
def closeWhile (p : OpenBlock → Bool) (t : Builder) : Builder :=
  match _h : t.stack with
  | [] => t
  | b :: _ => if p b then t.close.closeWhile p else t
termination_by t.stack.length
decreasing_by
  rw [close_length, _h, List.length_cons]
  omega

/-- A new entry ends the blocks that are not indented less. -/
def add (t : Builder) (e : Entry) : Builder :=
  let t := t.closeWhile (e.indent ≤ ·.indent)
  { t with stack := { e with } :: t.stack }

def finish (t : Builder) : List Block := (t.closeWhile fun _ => true).roots.reverse

end Builder

/-- The tree of a script; every command gets the timeout. -/
def parse (keywords : KeywordSet) (timeout : Nat) (script : String) : List Block :=
  ((entries keywords timeout script).foldl Builder.add {}).finish

end BrowserScript.Script
