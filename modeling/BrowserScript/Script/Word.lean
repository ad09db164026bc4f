import BrowserScript.Text.Basic
import BrowserScript.Text.Letter
import BrowserScript.Text.Search

/-!
The words of a line: runs of word characters, quoted texts that are not empty, double braces, stars
and colons. All other characters are passed over. Bullet lines are cut at stars and colons.
-/

namespace BrowserScript.Script

abbrev Piece := List Char × List Char

/-- A run of characters after a first one. -/
def run (p : Char → Bool) (first : Char) (cs : List Char) : Piece :=
  (first :: cs.takeWhile p, cs.dropWhile p)

theorem run_length (p : Char → Bool) (first : Char) (cs : List Char) :
    (run p first cs).2.length ≤ cs.length := Text.length_dropWhile_le p cs

/-- A text between two equal quotes, the first of which is already read. -/
def quoted? (q : Char) (cs : List Char) : Option Piece :=
  match cs.takeWhile (· != q), cs.dropWhile (· != q) with
  | b :: body, _ :: rest => some (q :: b :: body ++ [q], rest)
  | _, _ => none

/-- The text up to the first two closing braces on the line, with them. -/
def toBraces? : List Char → Option Piece
  | '\x7d' :: '\x7d' :: rest => some (['\x7d', '\x7d'], rest)
  | c :: cs => if c == '\n' then none else (toBraces? cs).map fun (w, rest) => (c :: w, rest)
  | [] => none

theorem toBraces?_length {cs w rest : List Char} (h : toBraces? cs = some (w, rest)) :
    rest.length ≤ cs.length := by
  fun_induction toBraces? cs generalizing w with
  | case1 rest' => simp_all; omega
  | case2 => simp at h
  | case3 c cs _ _ ih =>
      obtain ⟨⟨w', r'⟩, h', he⟩ := Option.map_eq_some_iff.1 h
      simp only [Prod.mk.injEq] at he
      have hl := ih (h'.trans (by rw [he.2]))
      simp only [List.length_cons]
      omega
  | case4 => simp at h

/-- The word at the head of the text, with what follows it. -/
def word? : List Char → Option Piece
  | [] => none
  | c :: cs =>
    if Text.isWordChar c then some (run Text.isWordChar c cs)
    else if c == '\'' || c == '"' then quoted? c cs
    else if c == '*' || c == ':' then some ([c], cs)
    else
      match c, cs with
      | '\x7b', '\x7b' :: cs => (toBraces? cs).map fun (w, rest) => ('\x7b' :: '\x7b' :: w, rest)
      | _, _ => none

theorem quoted?_length {q : Char} {cs w rest : List Char} (h : quoted? q cs = some (w, rest)) :
    rest.length ≤ cs.length := by
  have hl := Text.length_dropWhile_le (· != q) cs
  unfold quoted? at h
  split at h
  · next hd =>
      rw [hd] at hl
      simp_all
      omega
  · simp at h

theorem word?_length {cs w rest : List Char} (h : word? cs = some (w, rest)) :
    rest.length < cs.length := by
  cases cs with
  | nil => simp [word?] at h
  | cons c cs =>
      simp only [word?] at h
      split at h
      · obtain rfl := congrArg Prod.snd (Option.some.inj h)
        exact Nat.lt_succ_of_le (run_length ..)
      · split at h
        · exact Nat.lt_succ_of_le (quoted?_length h)
        · split at h
          · simp_all
          · split at h
            · obtain ⟨⟨w', r'⟩, h', he⟩ := Option.map_eq_some_iff.1 h
              have hl := toBraces?_length h'
              obtain ⟨-, rfl⟩ := Prod.mk.injEq .. ▸ he
              simp only [List.length_cons]
              omega
            · simp at h

/-- The words of a text in order. -/
def words (cs : List Char) : List (List Char) :=
  match cs with
  | [] => []
  | c :: cs =>
    match _h : word? (c :: cs) with
    | some (w, rest) => w :: words rest
    | none => words cs
termination_by cs.length
decreasing_by
  · have := word?_length _h
    simpa using this
  · simp

/-- A part of a bullet line: a star with what follows up to a colon, or a colon with the rest of
the line. The mark is left out of the part. -/
def bulletPart? : List Char → Option Piece
  | '*' :: c :: cs => if c == ':' then none else some (run (· != ':') c cs)
  | ':' :: c :: cs => if c == '\n' then none else some (run (· != '\n') c cs)
  | _ => none

theorem bulletPart?_length {cs w rest : List Char} (h : bulletPart? cs = some (w, rest)) :
    rest.length < cs.length := by
  unfold bulletPart? at h
  split at h
  · next c cs =>
      split at h
      · simp at h
      · obtain rfl := congrArg Prod.snd (Option.some.inj h)
        exact Nat.lt_succ_of_le (Nat.le_succ_of_le (run_length ..))
  · next c cs =>
      split at h
      · simp at h
      · obtain rfl := congrArg Prod.snd (Option.some.inj h)
        exact Nat.lt_succ_of_le (Nat.le_succ_of_le (run_length ..))
  · simp at h

def bulletParts (cs : List Char) : List (List Char) :=
  match cs with
  | [] => []
  | c :: cs =>
    match _h : bulletPart? (c :: cs) with
    | some (w, rest) => w :: bulletParts rest
    | none => bulletParts cs
termination_by cs.length
decreasing_by
  · have := bulletPart?_length _h
    simpa using this
  · simp

/-- A line `* FIELD: VALUE` types the value into the field. Lines that start with a star but have
no second part are no bullets. -/
def bullet? : List Char → Option (List String)
  | '*' :: cs =>
    match bulletParts ('*' :: cs) with
    | field :: value :: _ =>
      some ["type", String.ofList (Text.trim value), "in", String.ofList (Text.trim field)]
    | _ => none
  | _ => none

end BrowserScript.Script
