/-!
Substrings: where a piece occurs, splitting at a piece, and replacing it.
-/

namespace BrowserScript.Text

/-- What follows `piece` at the head of the text. -/
def after? : (piece text : List Char) → Option (List Char)
  | [], rest => some rest
  | _ :: _, [] => none
  | p :: ps, c :: cs => if p = c then after? ps cs else none

/-- The text before the first occurrence of `piece` and the text after it. -/
def splitAt? (piece : List Char) : List Char → Option (List Char × List Char)
  | [] => (after? piece []).map ([], ·)
  | c :: cs =>
    match after? piece (c :: cs) with
    | some rest => some ([], rest)
    | none => (splitAt? piece cs).map fun (before, rest) => (c :: before, rest)

/-- Whether `piece` occurs in the text. -/
def hasInfix (piece : List Char) : List Char → Bool
  | [] => piece.isEmpty
  | c :: cs => piece.isPrefixOf (c :: cs) || hasInfix piece cs

def occursIn (piece text : String) : Bool := hasInfix piece.toList text.toList

def startsWith (text piece : String) : Bool := piece.toList.isPrefixOf text.toList

def endsWith (text piece : String) : Bool := piece.toList.isSuffixOf text.toList

/-- The pieces between the separators; `piece` is the one being read, reversed. -/
def splitOnFrom (sep : Char) (piece : List Char) : List Char → List (List Char)
  | [] => [piece.reverse]
  | c :: cs =>
    if c = sep then piece.reverse :: splitOnFrom sep [] cs else splitOnFrom sep (c :: piece) cs

/-- The pieces between the separators, one more than there are separators. -/
def splitOn (sep : Char) (cs : List Char) : List (List Char) := splitOnFrom sep [] cs

/-- Replace every occurrence of `piece`, from the left, without looking into replaced text.
`skip` counts the characters of an occurrence still to be passed over. -/
def replaceFrom (piece by_ : List Char) (skip : Nat) : List Char → List Char
  | [] => []
  | c :: cs =>
    match skip with
    | n + 1 => replaceFrom piece by_ n cs
    | 0 =>
      if piece.isPrefixOf (c :: cs) then by_ ++ replaceFrom piece by_ (piece.length - 1) cs
      else c :: replaceFrom piece by_ 0 cs

/-- Replace every occurrence of a piece that is not empty. -/
def replaceAll (piece by_ text : List Char) : List Char := replaceFrom piece by_ 0 text

/-- Replace the first occurrence only. -/
def replaceFirst (piece by_ text : List Char) : List Char :=
  match splitAt? piece text with
  | some (before, rest) => before ++ by_ ++ rest
  | none => text

theorem length_takeWhile_le (p : α → Bool) (xs : List α) : (xs.takeWhile p).length ≤ xs.length :=
  (List.takeWhile_prefix p).length_le

theorem length_dropWhile_le (p : α → Bool) (xs : List α) : (xs.dropWhile p).length ≤ xs.length :=
  (List.dropWhile_suffix p).length_le

/-- Bytes the text takes in UTF-8. -/
def byteLength (cs : List Char) : Nat := cs.foldl (fun n c => n + c.utf8Size) 0

end BrowserScript.Text
