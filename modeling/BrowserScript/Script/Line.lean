import BrowserScript.Script.Word
import BrowserScript.Script.Verify
import BrowserScript.Keyword.Resolve

/-!
The command of a single line. Words that mean nothing are left out, a verify statement that is
recognised stands for the whole line.
-/

namespace BrowserScript.Script

/-- Words that are kept as they are, in lower case. -/
def plainWords : List String :=
  ["type", "capture", "test", "open", "switch", "navigate", "press", "select", "under",
    "mouseover", "button", "close", "autocomplete", "ok", "save"]

def connectives : List String := ["on", "in", "into"]

/-- A connective follows a word that is none itself. -/
def pushConnective (code : List String) : List String :=
  match code.getLast? with
  | none => code
  | some last => if last == Command.connective then code else code ++ [Command.connective]

/-- The command of a line that is the statement. -/
def VerifyStatement.applyTo (v : VerifyStatement) (c : Command) : Command :=
  let quote (s : String) : String := "\"" ++ s ++ "\""
  { c with
    code := ["verify", quote v.expected] ++
      (match v.locator with
      | some l => [Command.connective, quote l]
      | none => [])
    verifyType := some v.subject
    verifyOperator := some v.operator
    verifyExpected := some v.expected
    verifyLocator := v.locator
    verifyTarget := v.target }

/-- A command with the word verify at its end, in a line that is not understood. -/
def pushVerify (c : Command) : Command :=
  { c.push "verify" with verifyType := some .text, verifyOperator := some .contains }

def startsLiteral (word : List Char) : Bool :=
  word.head? == some '\x7b' || word.head? == some '"' || word.head? == some '\''

/-- Take up the words in order. `unread` tells whether a verify word was not understood; such a
command gets a connective if it has none. -/
def takeWords (unread : Bool) (c : Command) : List (List Char) → Command
  | [] =>
    if unread && c.inIndex.isNone then c.push Command.connective else c
  | w :: ws =>
    if startsLiteral w then takeWords unread (c.push (String.ofList w)) ws
    else
      let word := Text.lowered (String.ofList w)
      if word == "click" then
        takeWords unread ((c.push word).push Command.connective) ws
      else if word == "wait" then
        match ws with
        | [] => takeWords unread (c.push word) []
        | d :: ws => takeWords unread ((c.push word).push (String.ofList d)) ws
      else if plainWords.contains word then takeWords unread (c.push word) ws
      else if connectives.contains word then
        takeWords unread { c with code := pushConnective c.code } ws
      else if word == "verify" then
        match VerifyStatement.parse? c.src with
        | some v => v.applyTo c
        | none => takeWords true (pushVerify c) ws
      else takeWords unread c ws

/-- The command of a line without blanks at its ends, before keywords are looked up. -/
def readLine (line timeout : Nat) (src : List Char) : Command :=
  let c : Command := { line, code := [], src := String.ofList src, timeout }
  match bullet? src with
  | some code => { c with code }
  | none => takeWords false c (words src)

/-- The command of a line, none when the line is blank. -/
def parseLine? (keywords : KeywordSet) (timeout line : Nat) (text : List Char) : Option Command :=
  match Text.trim text with
  | [] => none
  | src => some ((readLine line timeout src).resolve keywords)

end BrowserScript.Script
