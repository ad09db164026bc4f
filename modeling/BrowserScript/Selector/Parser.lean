import BrowserScript.Selector.Basic
import BrowserScript.Text.Letter

/-!
Reading selectors. Groups are split at commas outside quotes and brackets; the brackets of an
attribute test end at the first closing one, quoted or not.
-/

namespace BrowserScript.Selector

def isNameChar (c : Char) : Bool := Text.isLetterOrNumber c || c == '-' || c == '_'

/-- The pieces between commas. `depth` counts the open brackets, `quote` is the quote that is
open, and `piece` is the piece being read, reversed. -/
def groupsFrom (quote : Option Char) (depth : Int) (piece : List Char) :
    List Char → List (List Char)
  | [] => [piece.reverse]
  | c :: cs =>
    match quote with
    | some q => groupsFrom (if c == q then none else quote) depth (c :: piece) cs
    | none =>
      if c == '"' || c == '\'' then groupsFrom (some c) depth (c :: piece) cs
      else if c == '[' then groupsFrom none (depth + 1) (c :: piece) cs
      else if c == ']' then groupsFrom none (depth - 1) (c :: piece) cs
      else if c == ',' && depth == 0 then piece.reverse :: groupsFrom none depth [] cs
      else groupsFrom none depth (c :: piece) cs

/-- A name that is not empty. -/
def name? (cs : List Char) : Option String :=
  if !cs.isEmpty && cs.all isNameChar then some (String.ofList cs) else none

/-- A value in quotes, or a name. -/
def value? (cs : List Char) : Option String :=
  match cs with
  | [] => none
  | q :: body =>
    if q == '"' || q == '\'' then
      if body.getLast? == some q then some (String.ofList body.dropLast) else none
    else name? cs

/-- The inside of an attribute test. -/
def attributeTest? (cs : List Char) : Option AttributeTest :=
  let cs := Text.trim cs
  match Text.splitAt? ['='] cs with
  | none => (name? cs).map fun name => ⟨Text.asciiLowered name, none⟩
  | some (name, value) => do
    let name ← name? (Text.trim name)
    let value ← value? (Text.trim value)
    some ⟨Text.asciiLowered name, some value⟩

/-- What ends a compound. -/
def endsCompound (c : Char) : Bool := Text.isBlank c || c == '>'

/-- The parts of a compound after its tag, up to a blank or a child sign. -/
def parts (c : Compound) (cs : List Char) : Option (Compound × List Char) :=
  match cs with
  | [] => some (c, [])
  | '#' :: r =>
    match name? (r.takeWhile isNameChar) with
    | some id => parts { c with id := some id } (r.dropWhile isNameChar)
    | none => none
  | '.' :: r =>
    match name? (r.takeWhile isNameChar) with
    | some name => parts { c with classes := c.classes ++ [name] } (r.dropWhile isNameChar)
    | none => none
  | '[' :: r =>
    match _h : r.dropWhile (· != ']'), attributeTest? (r.takeWhile (· != ']')) with
    | _ :: rest, some test => parts { c with attributes := c.attributes ++ [test] } rest
    | _, _ => none
  | x :: _ => if endsCompound x then some (c, cs) else none
termination_by cs.length
decreasing_by
  · have := Text.length_dropWhile_le isNameChar r
    simp only [List.length_cons]
    omega
  · have := Text.length_dropWhile_le isNameChar r
    simp only [List.length_cons]
    omega
  · have hl := Text.length_dropWhile_le (· != ']') r
    rw [_h] at hl
    simp only [List.length_cons] at hl ⊢
    omega

/-- Reading parts goes forward unless it starts at the end of the compound. -/
theorem parts_length {c c' : Compound} {cs rest : List Char} (h : parts c cs = some (c', rest)) :
    rest.length < cs.length ∨ rest = cs ∧ ∀ x ∈ cs.head?, endsCompound x := by
  fun_induction parts c cs with
  | case1 => simp_all
  | case2 c r id hid ih =>
      have hd := Text.length_dropWhile_le isNameChar r
      rcases ih h with hr | ⟨rfl, -⟩ <;> left <;> simp only [List.length_cons] <;> omega
  | case4 c r name hn ih =>
      have hd := Text.length_dropWhile_le isNameChar r
      rcases ih h with hr | ⟨rfl, -⟩ <;> left <;> simp only [List.length_cons] <;> omega
  | case6 c r x rest' test hr _ ih =>
      have hl := Text.length_dropWhile_le (· != ']') r
      rw [hr] at hl
      rcases ih h with hr | ⟨rfl, -⟩ <;> left <;> simp only [List.length_cons] at hl ⊢ <;> omega
  | case8 =>
      simp only [Option.some.injEq, Prod.mk.injEq] at h
      obtain ⟨-, rfl⟩ := h
      simp_all
  | case3 | case5 | case7 | case9 => simp at h

/-- A compound that is not empty. -/
def compound? (cs : List Char) : Option (Compound × List Char) :=
  match cs with
  | [] => none
  | c :: r =>
    if c == '*' then parts {} r
    else if isNameChar c then
      parts { tag := some (Text.asciiLowered (String.ofList (c :: r.takeWhile isNameChar))) }
        (r.dropWhile isNameChar)
    else if endsCompound c then none
    else parts {} (c :: r)

theorem compound?_length {c : Compound} {cs rest : List Char}
    (h : compound? cs = some (c, rest)) : rest.length < cs.length := by
  unfold compound? at h
  split at h
  · simp at h
  · next x r =>
      have hd := Text.length_dropWhile_le isNameChar r
      simp only [List.length_cons]
      split at h
      · rcases parts_length h with hl | ⟨rfl, -⟩ <;> omega
      · split at h
        · rcases parts_length h with hl | ⟨rfl, -⟩ <;> omega
        · split at h
          · simp at h
          · next hx =>
              rcases parts_length h with hl | ⟨-, he⟩
              · simpa using hl
              · exact absurd (he x rfl) hx

/-- The compounds after a first one. The pending combinator is a child sign once one was read. -/
def chainFrom (front : Chain) (pending : Combinator) (cs : List Char) : Option Chain :=
  match _h : cs.dropWhile Text.isBlank with
  | [] => if pending = .child then none else some front
  | c :: r =>
    if c == '>' then
      if pending = .child then none else chainFrom front .child r
    else
      match _hc : compound? (c :: r) with
      | some (last, rest) => chainFrom (.next front pending last) .descendant rest
      | none => none
termination_by cs.length
decreasing_by
  all_goals
    have hl := Text.length_dropWhile_le Text.isBlank cs
    rw [_h] at hl
    simp only [List.length_cons] at hl
  · omega
  · have := compound?_length _hc
    simp only [List.length_cons] at this
    omega

def chain? (cs : List Char) : Option Chain :=
  (compound? (cs.dropWhile Text.isBlank)).bind fun (first, rest) =>
    chainFrom (.one first) .descendant rest

def ofChars? (cs : List Char) : Option Selector :=
  ((groupsFrom none 0 [] cs).mapM fun group => chain? (Text.trim group)).map (⟨·⟩)

/-- The selector a text holds. -/
def parse (text : String) : Except Page.Error Selector :=
  match ofChars? text.toList with
  | some s => .ok s
  | none => .error (.invalidSelector text)

end BrowserScript.Selector
