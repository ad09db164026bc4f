import BrowserScript.Locator.Literal
import BrowserScript.Proofs.Text.Pieces
import BrowserScript.Proofs.Text.Words
import BrowserScript.XPath.Parser

/-!
Tokens of a text read from its head: signs, blanks, names, quoted texts, and the literal that is
written for any text, which needs no escapes because it is put together where both quotes occur.
-/

namespace BrowserScript

namespace XPath

variable {c d : Char} {cs rest : List Char} {t : Token}

theorem tokens?_blank (blank : Text.isBlank c) (rest : List Char) :
    tokens? (c :: rest) = tokens? rest := by
  rw [tokens?, if_pos blank]

theorem tokens?_next (solid : Text.isBlank c = false) (next : Token.next? c cs = some (t, rest)) :
    tokens? (c :: cs) = (tokens? rest).map (t :: ·) := by
  rw [tokens?, if_neg (Bool.eq_false_iff.mp solid)]
  split
  · next found =>
      obtain ⟨rfl, rfl⟩ := Prod.mk.inj (Option.some.inj (found.symm.trans next))
      rfl
  · next found => cases found.symm.trans next

/-- A sign that is a token whatever follows it. -/
theorem tokens?_sign (c : Char) (solid : Text.isBlank c = false)
    (next : ∀ cs, Token.next? c cs = some (t, cs)) (rest : List Char) :
    tokens? (c :: rest) = (tokens? rest).map (t :: ·) :=
  tokens?_next solid (next rest)

theorem tokens?_comma (cs : List Char) :
    tokens? (',' :: ' ' :: cs) = (tokens? cs).map (.comma :: ·) := by
  rw [tokens?_sign ',' rfl (fun _ => rfl), tokens?_blank rfl]

/-! ## Signs -/

namespace Token

/-- The sign that two characters make together. -/
def pair? : Char → Char → Option Token
  | '/', '/' => some .doubleSlash
  | '!', '=' => some .ne
  | '<', '=' => some .le
  | '>', '=' => some .ge
  | ':', ':' => some .twoColons
  | '.', '.' => some .twoDots
  | _, _ => none

/-- The sign that a character makes where it is not one of a pair. -/
def sign? : Char → Option Token
  | '/' => some .slash
  | '[' => some .leftBracket
  | ']' => some .rightBracket
  | '(' => some .leftParen
  | ')' => some .rightParen
  | '@' => some .at
  | ',' => some .comma
  | '|' => some .pipe
  | '*' => some .star
  | '+' => some .plus
  | '-' => some .minus
  | '=' => some .eq
  | '<' => some .lt
  | '>' => some .gt
  | _ => none

/-- The literal, number, dot or name that begins with a character. -/
def word? (c : Char) (cs : List Char) : Option (Token × List Char) :=
  if c == '"' || c == '\'' then
    match cs.dropWhile (· != c) with
    | [] => none
    | _ :: rest => some (.literal (String.ofList (cs.takeWhile (· != c))), rest)
  else if Text.isAsciiDigit c || (c == '.' && cs.head?.any Text.isAsciiDigit) then
    (Decimal.unsigned? (c :: cs.takeWhile isNumberChar)).map
      fun f => (.number f, cs.dropWhile isNumberChar)
  else if c == '.' then some (.dot, cs)
  else if isNameStart c then
    some (.name (String.ofList (c :: cs.takeWhile isNameChar)), cs.dropWhile isNameChar)
  else none

theorem next?_pair (pair : pair? c d = some t) (cs : List Char) :
    next? c (d :: cs) = some (t, cs) := by
  unfold pair? at pair
  split at pair <;> cases pair <;> rfl

theorem next?_sign (sign : sign? c = some t) (single : cs.head?.bind (pair? c) = none) :
    next? c cs = some (t, cs) := by
  unfold next?
  split
  case h_21 =>
    unfold sign? at sign
    split at sign <;> simp_all
  all_goals first | cases single | (cases sign; rfl)

theorem next?_word (sign : sign? c = none) (single : cs.head?.bind (pair? c) = none) :
    next? c cs = word? c cs := by
  unfold next?
  split
  case h_21 => rfl
  all_goals first | cases single | cases sign

/-- Where a token ends: after a pair, after a sign, or where its word does. -/
theorem next?_cases (next : next? c cs = some (t, rest)) :
    (∃ d, pair? c d = some t ∧ cs = d :: rest) ∨
    cs.head?.bind (pair? c) = none ∧
      (sign? c = some t ∧ cs = rest ∨ sign? c = none ∧ word? c cs = some (t, rest)) := by
  cases pair : cs.head?.bind (pair? c) with
  | some t' =>
      obtain ⟨d, first, pair⟩ := Option.bind_eq_some_iff.mp pair
      obtain ⟨ds, rfl⟩ := List.head?_eq_some_iff.mp first
      rw [next?_pair pair] at next
      cases next
      exact .inl ⟨d, pair, rfl⟩
  | none =>
      refine .inr ⟨rfl, ?_⟩
      cases sign : sign? c with
      | some t' =>
          rw [next?_sign sign pair] at next
          cases next
          exact .inl ⟨rfl, rfl⟩
      | none => exact .inr ⟨rfl, next?_word sign pair ▸ next⟩

theorem word?_cases (word : word? c cs = some (t, rest)) :
    (∃ q, (c = '"' ∨ c = '\'') ∧ cs.dropWhile (· != c) = q :: rest ∧
      t = .literal (String.ofList (cs.takeWhile (· != c)))) ∨
    (∃ f, t = .number f ∧ cs.dropWhile isNumberChar = rest) ∨
    t = .dot ∧ cs = rest ∨
    ∃ s, t = .name s ∧ cs.dropWhile isNameChar = rest := by
  unfold word? at word
  split at word
  · next quote =>
      rw [Bool.or_eq_true, beq_iff_eq, beq_iff_eq] at quote
      split at word
      · cases word
      · next found =>
          cases word
          exact .inl ⟨_, quote, found, rfl⟩
  · split at word
    · obtain ⟨f, -, same⟩ := Option.map_eq_some_iff.mp word
      cases same
      exact .inr (.inl ⟨f, rfl, rfl⟩)
    · split at word
      · cases word
        exact .inr (.inr (.inl ⟨rfl, rfl⟩))
      · split at word
        · cases word
          exact .inr (.inr (.inr ⟨_, rfl, rfl⟩))
        · cases word

theorem next?_slash (other : ∀ more, cs ≠ '/' :: more) : next? '/' cs = some (.slash, cs) := by
  refine next?_sign rfl ?_
  cases cs with
  | nil => rfl
  | cons d ds =>
      have apart : d ≠ '/' := fun same => other ds (same ▸ rfl)
      simp [pair?, apart]

end Token

/-! ## Names -/

theorem solid_of_isLetterOrNumber (letter : Text.isLetterOrNumber c) : ¬ Text.isBlank c := by
  intro blank
  have all : ∀ n ∈ [9, 10, 11, 12, 13, 0x20, 0x85, 0xA0, 0x1680, 0x2000, 0x2001, 0x2002, 0x2003,
      0x2004, 0x2005, 0x2006, 0x2007, 0x2008, 0x2009, 0x200A, 0x2028, 0x2029, 0x202F, 0x205F,
      0x3000], Text.isLetterOrNumber (Char.ofNat n) = false := by decide +kernel
  have mem : c.toNat ∈ [9, 10, 11, 12, 13, 0x20, 0x85, 0xA0, 0x1680, 0x2000, 0x2001, 0x2002,
      0x2003, 0x2004, 0x2005, 0x2006, 0x2007, 0x2008, 0x2009, 0x200A, 0x2028, 0x2029, 0x202F,
      0x205F, 0x3000] := by
    simp only [Text.isBlank, Bool.or_eq_true, Bool.and_eq_true, decide_eq_true_eq,
      beq_iff_eq] at blank
    simp only [List.mem_cons, List.not_mem_nil, or_false]
    omega
  have other := all _ mem
  rw [Char.ofNat_toNat, letter] at other
  cases other

namespace Token

theorem solid_of_isNameChar (char : isNameChar c) : ¬ Text.isBlank c := by
  simp only [isNameChar, Bool.or_eq_true, beq_iff_eq] at char
  rcases char with (letter | rfl) | rfl
  · exact solid_of_isLetterOrNumber letter
  · decide
  · decide

theorem toNat_of_isNameStart (start : isNameStart c) : 65 ≤ c.toNat := by
  simp only [isNameStart, Text.isLetter, Text.isAsciiLetter, Bool.or_eq_true, Bool.and_eq_true,
    decide_eq_true_eq, beq_iff_eq] at start
  rcases start with ((⟨low, -⟩ | ⟨low, -⟩) | ⟨far, -⟩) | rfl
  · exact Nat.le_trans (by decide : 65 ≤ 97) (UInt32.le_iff_toNat_le.mp low)
  · exact UInt32.le_iff_toNat_le.mp low
  · omega
  · decide

/-- What a name token can hold. -/
def isName (name : List Char) : Bool := name.head?.any isNameStart && name.all isNameChar

theorem next?_name (start : isNameStart c) (cs : List Char) :
    next? c cs = some (.name (String.ofList (c :: cs.takeWhile isNameChar)),
      cs.dropWhile isNameChar) := by
  have far := toNat_of_isNameStart start
  have digit : Text.isAsciiDigit c = false := by
    have last : ¬ c ≤ '9' := fun low =>
      absurd (Nat.le_trans far (UInt32.le_iff_toNat_le.mp low)) (by decide)
    simp [Text.isAsciiDigit, last]
  have sign : sign? c = none := by
    unfold sign?
    split
    case h_15 => rfl
    all_goals exact absurd start (by decide)
  have single : cs.head?.bind (pair? c) = none := by
    refine Option.bind_eq_none_iff.mpr fun d _ => ?_
    unfold pair?
    split
    case h_7 => rfl
    all_goals exact absurd start (by decide)
  have quote : ¬ (c == '"' || c == '\'') := by
    rintro same
    rcases Bool.or_eq_true_iff.mp same with same | same <;> rw [eq_of_beq same] at far <;>
      exact absurd far (by decide)
  have dot : (c == '.') = false := by
    rw [beq_eq_false_iff_ne]
    rintro rfl
    exact absurd far (by decide)
  rw [next?_word sign single, word?, if_neg quote, digit, dot]
  exact if_pos start

end Token

/-- What can follow a name. -/
def EndsName (rest : List Char) : Prop := ∀ c ∈ rest.head?, ¬ Token.isNameChar c

theorem endsName_cons (sign : Token.isNameChar c = false) (cs : List Char) :
    EndsName (c :: cs) := by
  intro d mem
  obtain rfl := Option.some.inj mem
  exact Bool.eq_false_iff.mp sign

/-- A name is read up to a character that cannot stand in names. -/
theorem tokens?_name {name : List Char} (named : Token.isName name) (ends : EndsName rest) :
    tokens? (name ++ rest) = (tokens? rest).map (.name (String.ofList name) :: ·) := by
  obtain ⟨start, chars⟩ := Bool.and_eq_true_iff.mp named
  have chars := List.all_eq_true.mp chars
  cases name with
  | nil => cases start
  | cons c cs =>
      obtain ⟨first, chars⟩ := List.forall_mem_cons.mp chars
      obtain ⟨taken, left⟩ := Text.takeWhile_append_of_stop chars ends
      have next := Token.next?_name start (cs ++ rest)
      rw [taken, left] at next
      exact tokens?_next (Bool.eq_false_iff.mpr (Token.solid_of_isNameChar first)) next

/-! ## Literals -/

theorem tokens?_quoted (quote : c = '"' ∨ c = '\'') (free : c ∉ cs) (rest : List Char) :
    tokens? (c :: (cs ++ c :: rest)) = (tokens? rest).map (.literal (String.ofList cs) :: ·) := by
  have inside : ∀ d ∈ cs, (d != c) = true := fun d mem =>
    bne_iff_ne.mpr fun same => free (same ▸ mem)
  have taken : (cs ++ c :: rest).takeWhile (· != c) = cs := by
    rw [List.takeWhile_append_of_pos inside]
    simp
  have left : (cs ++ c :: rest).dropWhile (· != c) = c :: rest := by
    rw [List.dropWhile_append_of_pos inside]
    simp
  refine tokens?_next ?_ ?_
  · rcases quote with rfl | rfl <;> decide
  · rcases quote with rfl | rfl <;> simp [Token.next?, taken, left]

/-- Arguments with commas between them. -/
def listed : List (List Token) → List Token
  | [] => []
  | first :: more => first ++ more.flatMap (.comma :: ·)

theorem listed_cons {args : List (List Token)} (more : args ≠ []) (first : List Token) :
    listed (first :: args) = first ++ .comma :: listed args := by
  obtain ⟨next, args, rfl⟩ := List.exists_cons_of_ne_nil more
  rfl

end XPath

namespace Locator

open XPath (Token tokens? tokens?_next tokens?_comma tokens?_name tokens?_quoted endsName_cons)

/-- What a text with quotes of both kinds is put together from. -/
def pieces (cs : List Char) : List (List Char) := (Text.splitOn '\'' cs).intersperse ['\'']

theorem flatten_pieces (cs : List Char) : (pieces cs).flatten = cs := by
  rw [pieces, Text.splitOn_eq]
  exact List.intercalate_splitOn '\''

/-- Whether a text has quotes of both kinds. -/
def isPieced (s : String) : Bool := s.toList.contains '\'' && s.toList.contains '"'

theorem two_le_length_pieces {cs : List Char} (quoted : '\'' ∈ cs) : 2 ≤ (pieces cs).length := by
  obtain ⟨p, ps, split⟩ := List.exists_cons_of_ne_nil (Text.splitOn_ne_nil '\'' cs)
  have first : '\'' ∉ p := Text.notMem_of_mem_splitOn (split ▸ List.mem_cons_self)
  have whole := flatten_pieces cs
  rw [pieces, split] at whole ⊢
  cases ps with
  | nil =>
      have same : p = cs := by simpa using whole
      exact absurd quoted (same ▸ first)
  | cons q ps => simp

def literalTokens (s : String) : List Token :=
  if isPieced s then
    .name "concat" :: .leftParen ::
      (XPath.listed ((pieces s.toList).map fun p => [.literal (String.ofList p)]) ++ [.rightParen])
  else [.literal s]

theorem tokens?_pieces {ps : List (List Char)} (some : ps ≠ []) (free : ∀ p ∈ ps, '\'' ∉ p)
    (rest : List Char) :
    tokens? (((ps.map singleQuoted).intersperse ", \"'\", ".toList).flatten ++ rest) =
      (tokens? rest).map (XPath.listed ((ps.intersperse ['\'']).map fun p =>
        [.literal (String.ofList p)]) ++ ·) := by
  induction ps with
  | nil => exact absurd rfl some
  | cons p ps ih =>
      obtain ⟨first, free⟩ := List.forall_mem_cons.mp free
      have quoted := tokens?_quoted (.inr rfl) first
      cases ps with
      | nil =>
          have one := quoted rest
          simpa [singleQuoted, XPath.listed] using one
      | cons q ps =>
          have later := ih (List.cons_ne_nil q ps) free
          generalize more : ((q :: ps).map singleQuoted).intersperse ", \"'\", ".toList = others
            at later
          generalize read : ((q :: ps).intersperse ['\'']).map
            (fun p => [Token.literal (String.ofList p)]) = args at later
          have text : (((p :: q :: ps).map singleQuoted).intersperse ", \"'\", ".toList).flatten ++
              rest = '\'' :: (p ++ '\'' :: ',' :: ' ' :: '"' :: (['\''] ++ '"' :: ',' :: ' ' ::
                (others.flatten ++ rest))) := by
            rw [← more]
            simp [singleQuoted]
          have some : args ≠ [] := by
            rw [← read]
            cases ps <;> simp
          have parts : XPath.listed (((p :: q :: ps).intersperse ['\'']).map fun p =>
              [.literal (String.ofList p)]) =
              [.literal (String.ofList p)] ++ .comma ::
                ([.literal (String.ofList ['\''])] ++ .comma :: XPath.listed args) := by
            rw [List.intersperse_cons_cons, List.map_cons, List.map_cons, read,
              XPath.listed_cons (List.cons_ne_nil _ _), XPath.listed_cons some]
          rw [text, quoted, tokens?_comma, tokens?_quoted (.inl rfl) (by decide), tokens?_comma,
            later, parts]
          simp only [Option.map_map]
          rfl

/-- The literal of a text is read as such, whatever quotes the text has. -/
theorem tokens?_literal (s : String) (rest : List Char) :
    tokens? ((literal s).toList ++ rest) = (tokens? rest).map (literalTokens s ++ ·) := by
  have itself := String.ofList_toList (s := s)
  rw [literal, String.toList_ofList, literalTokens, isPieced]
  generalize s.toList = cs at itself ⊢
  by_cases single : '\'' ∈ cs
  · by_cases double : '"' ∈ cs
    · simp only [List.contains_iff_mem.mpr single, List.contains_iff_mem.mpr double, Bool.not_true,
        Bool.and_self, if_true, Bool.false_eq_true, if_false]
      have free : ∀ p ∈ Text.splitOn '\'' cs, '\'' ∉ p := fun p => Text.notMem_of_mem_splitOn
      have read := tokens?_pieces (Text.splitOn_ne_nil '\'' cs) free (')' :: rest)
      rw [← pieces] at read
      have named : Token.isName "concat".toList := by decide
      generalize ((Text.splitOn '\'' cs).map singleQuoted).intersperse _ = quoted at read ⊢
      have text : "concat(".toList ++ quoted.flatten ++ [')'] ++ rest =
          "concat".toList ++ '(' :: (quoted.flatten ++ ')' :: rest) := by simp
      rw [text, tokens?_name named (endsName_cons rfl _), tokens?_next rfl rfl, read,
        tokens?_next rfl rfl]
      simp only [Option.map_map]
      congr 1
      funext ts
      simp [Function.comp_apply]
    · have quoted := tokens?_quoted (.inl rfl) double rest
      simpa [single, double, itself] using quoted
  · have quoted := tokens?_quoted (.inr rfl) single rest
    simpa [single, singleQuoted, itself] using quoted

end Locator

end BrowserScript
