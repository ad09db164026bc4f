import BrowserScript.Decimal.Text
import BrowserScript.Text.Basic
import BrowserScript.Text.Letter
import BrowserScript.Text.Search

/-!
Tokens of expressions.
-/

namespace BrowserScript.XPath

inductive Token
  | slash | doubleSlash | leftBracket | rightBracket | leftParen | rightParen
  | at | comma | pipe | dot | twoDots | star | plus | minus
  | eq | ne | lt | le | gt | ge | twoColons
  | literal (s : String)
  | number (f : Float)
  | name (s : String)

namespace Token

def isNumberChar (c : Char) : Bool := Text.isAsciiDigit c || c == '.'

def isNameStart (c : Char) : Bool := Text.isLetter c || c == '_'

def isNameChar (c : Char) : Bool := Text.isLetterOrNumber c || c == '-' || c == '_'

/-- The token that begins with a character, and what follows it. A literal has no escapes: it
ends at the next quote of its kind. -/
def next? (c : Char) (cs : List Char) : Option (Token × List Char) :=
  match c, cs with
  | '/', '/' :: r => some (.doubleSlash, r)
  | '/', r => some (.slash, r)
  | '[', r => some (.leftBracket, r)
  | ']', r => some (.rightBracket, r)
  | '(', r => some (.leftParen, r)
  | ')', r => some (.rightParen, r)
  | '@', r => some (.at, r)
  | ',', r => some (.comma, r)
  | '|', r => some (.pipe, r)
  | '*', r => some (.star, r)
  | '+', r => some (.plus, r)
  | '-', r => some (.minus, r)
  | '=', r => some (.eq, r)
  | '!', '=' :: r => some (.ne, r)
  | '<', '=' :: r => some (.le, r)
  | '<', r => some (.lt, r)
  | '>', '=' :: r => some (.ge, r)
  | '>', r => some (.gt, r)
  | ':', ':' :: r => some (.twoColons, r)
  | '.', '.' :: r => some (.twoDots, r)
  | c, r =>
    if c == '"' || c == '\'' then
      match r.dropWhile (· != c) with
      | [] => none
      | _ :: rest => some (.literal (String.ofList (r.takeWhile (· != c))), rest)
    else if Text.isAsciiDigit c || (c == '.' && r.head?.any Text.isAsciiDigit) then
      (Decimal.unsigned? (c :: r.takeWhile isNumberChar)).map
        fun f => (.number f, r.dropWhile isNumberChar)
    else if c == '.' then some (.dot, r)
    else if isNameStart c then
      some (.name (String.ofList (c :: r.takeWhile isNameChar)), r.dropWhile isNameChar)
    else none

theorem next?_length {c : Char} {cs rest : List Char} {t : Token}
    (h : next? c cs = some (t, rest)) : rest.length ≤ cs.length := by
  have h1 := Text.length_dropWhile_le isNumberChar cs
  have h2 := Text.length_dropWhile_le isNameChar cs
  have h3 := Text.length_dropWhile_le (· != c) cs
  unfold next? at h
  split at h
  all_goals try
    simp only [Option.some.injEq, Prod.mk.injEq] at h
    obtain ⟨-, rfl⟩ := h
    simp
  split at h
  · split at h
    · simp at h
    · next hd =>
        simp only [Option.some.injEq, Prod.mk.injEq] at h
        obtain ⟨-, rfl⟩ := h
        rw [hd] at h3
        simp only [List.length_cons] at h3
        omega
  · split at h
    · simp only [Option.map_eq_some_iff, Prod.mk.injEq] at h
      obtain ⟨f, -, -, rfl⟩ := h
      exact h1
    · split at h
      · simp_all
      · split at h
        · simp only [Option.some.injEq, Prod.mk.injEq] at h
          obtain ⟨-, rfl⟩ := h
          exact h2
        · simp at h

end Token

/-- The tokens of a text; blanks may stand between them. -/
def tokens? (cs : List Char) : Option (List Token) :=
  match cs with
  | [] => some []
  | c :: cs =>
    if Text.isBlank c then tokens? cs
    else
      match _h : Token.next? c cs with
      | some (t, rest) => (tokens? rest).map (t :: ·)
      | none => none
termination_by cs.length
decreasing_by
  · simp
  · have := Token.next?_length _h
    simp only [List.length_cons]
    omega

end BrowserScript.XPath
