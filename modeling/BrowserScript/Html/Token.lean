import BrowserScript.Html.Entity
import BrowserScript.Text.Basic
import BrowserScript.Text.Letter

/-!
The parts of a markup text: texts, start tags with their attributes, and end tags. Comments and
declarations are passed over. The reader takes every text; a `<` that starts no tag is itself
text.

Text runs from the last tag to the next `<`. Where that `<` starts no tag, the text read so far
is a part of its own and also the beginning of the next one.
-/

namespace BrowserScript.Html

/-- What a start tag begins. -/
inductive Body
  /-- Content up to the end tag. -/
  | opened
  /-- Nothing: the tag is void or closes itself. -/
  | none
  /-- A single text, empty or not, without markup. -/
  | text (cs : List Char)
deriving DecidableEq

abbrev Attributes := List (List Char × List Char)

inductive Token
  | text (cs : List Char)
  | start (tag : List Char) (attributes : Attributes) (body : Body)
  | stop (tag : List Char)
deriving DecidableEq

def voidTags : List String :=
  ["area", "base", "br", "col", "embed", "hr", "img", "input", "link", "meta", "param", "source",
    "track", "wbr"]

/-- Tags whose content is one text. -/
def textTags : List String := ["script", "style", "title", "textarea"]

/-- Tags whose text holds no references. -/
def rawTags : List String := ["script", "style"]

def isTagChar (c : Char) : Bool :=
  Text.isAsciiLetter c || Text.isAsciiDigit c || c == '-' || c == '_'

def lowerAll (cs : List Char) : List Char := cs.map Text.asciiLower

/-- What follows the first character of that kind, nothing if there is none. -/
def past (c : Char) (cs : List Char) : List Char := (cs.dropWhile (· != c)).drop 1

theorem length_past_le (c : Char) (cs : List Char) : (past c cs).length ≤ cs.length := by
  have := Text.length_dropWhile_le (· != c) cs
  simp only [past, List.length_drop]
  omega

/-! ## Attributes -/

def endsName (c : Char) : Bool := Text.isMarkupBlank c || c == '=' || c == '>' || c == '/'

/-- An attribute value, and what follows it. -/
def value (cs : List Char) : List Char × List Char :=
  match cs.dropWhile Text.isMarkupBlank with
  | q :: cs =>
    if q == '"' || q == '\'' then (decode (cs.takeWhile (· != q)), past q cs)
    else
      let inside (c : Char) : Bool := !(Text.isMarkupBlank c || c == '>')
      (decode ((q :: cs).takeWhile inside), (q :: cs).dropWhile inside)
  | [] => ([], [])

theorem length_value_le (cs : List Char) : (value cs).2.length ≤ cs.length := by
  have h := Text.length_dropWhile_le Text.isMarkupBlank cs
  unfold value
  split
  · next q r hq =>
      rw [hq] at h
      simp only [List.length_cons] at h
      split
      · have := length_past_le q r
        simp only
        omega
      · have := Text.length_dropWhile_le (fun c => !(Text.isMarkupBlank c || c == '>')) (q :: r)
        simp only [List.length_cons] at this ⊢
        omega
  · simp

/-- What follows the name of an attribute: its value, if there is an equals sign. -/
def valueAfter (cs : List Char) : List Char × List Char :=
  match cs.dropWhile Text.isMarkupBlank with
  | '=' :: cs => value cs
  | cs => ([], cs)

theorem length_valueAfter_le (cs : List Char) : (valueAfter cs).2.length ≤ cs.length := by
  have h := Text.length_dropWhile_le Text.isMarkupBlank cs
  unfold valueAfter
  split
  · next r hr =>
      have := length_value_le r
      rw [hr] at h
      simp only [List.length_cons] at h
      omega
  · exact h

/-- The first attribute of a name counts. -/
def addAttribute (attributes : Attributes) (name value : List Char) : Attributes :=
  if attributes.any (·.1 == name) then attributes else attributes ++ [(name, value)]

/-- The rest of a start tag. -/
structure TagRest where
  attributes : Attributes
  closed : Bool
  rest : List Char

/-- Read attributes up to the end of the tag. A slash closes the tag unless an attribute follows
it; an equals sign without a name is passed over. -/
def tagRest (attributes : Attributes) (closed : Bool) (cs : List Char) : TagRest :=
  match _h : cs.dropWhile Text.isMarkupBlank with
  | [] => ⟨attributes, closed, []⟩
  | c :: r =>
    if c == '>' then ⟨attributes, closed, r⟩
    else if c == '/' then tagRest attributes true r
    else if c == '=' then tagRest attributes closed r
    else
      let name := c :: r.takeWhile (!endsName ·)
      let v := valueAfter (r.dropWhile (!endsName ·))
      tagRest (addAttribute attributes (lowerAll name) v.1) false v.2
termination_by cs.length
decreasing_by
  all_goals
    have hl := Text.length_dropWhile_le Text.isMarkupBlank cs
    rw [_h] at hl
    simp only [List.length_cons] at hl
  · omega
  · omega
  · have h1 := length_valueAfter_le (r.dropWhile (!endsName ·))
    have h2 := Text.length_dropWhile_le (!endsName ·) r
    omega

theorem length_tagRest_le (attributes : Attributes) (closed : Bool) (cs : List Char) :
    (tagRest attributes closed cs).rest.length ≤ cs.length := by
  fun_induction tagRest attributes closed cs with
  | case1 => simp
  | case2 attributes closed cs c r h hc =>
      have hl := Text.length_dropWhile_le Text.isMarkupBlank cs
      rw [h] at hl
      simp only [List.length_cons] at hl ⊢
      omega
  | case3 attributes closed cs c r h _ _ ih =>
      have hl := Text.length_dropWhile_le Text.isMarkupBlank cs
      rw [h] at hl
      simp only [List.length_cons] at hl
      omega
  | case4 attributes closed cs c r h _ _ _ ih =>
      have hl := Text.length_dropWhile_le Text.isMarkupBlank cs
      rw [h] at hl
      simp only [List.length_cons] at hl
      omega
  | case5 attributes closed cs c r h _ _ _ name v ih =>
      have hl := Text.length_dropWhile_le Text.isMarkupBlank cs
      rw [h] at hl
      simp only [List.length_cons] at hl
      have h1 : v.2.length ≤ (r.dropWhile (!endsName ·)).length := length_valueAfter_le _
      have h2 := Text.length_dropWhile_le (!endsName ·) r
      omega

/-! ## Tags -/

/-- The text up to the end tag of that name, and what follows the end tag. -/
def textBody (tag : List Char) : List Char → List Char × List Char
  | [] => ([], [])
  | c :: cs =>
    if ('<' :: '/' :: tag).isPrefixOf (lowerAll ((c :: cs).take (tag.length + 2))) then
      ([], past '>' (c :: cs))
    else
      let (before, rest) := textBody tag cs
      (c :: before, rest)

theorem length_textBody_le (tag cs : List Char) : (textBody tag cs).2.length ≤ cs.length := by
  induction cs with
  | nil => simp [textBody]
  | cons c cs ih =>
      simp only [textBody]
      split
      · exact length_past_le '>' (c :: cs)
      · simp only [List.length_cons]
        omega

/-- The start tag after a `<`, and what follows it or the text it begins. -/
def startTag? (cs : List Char) : Option (Token × List Char) :=
  let tag := lowerAll (cs.takeWhile isTagChar)
  if tag.isEmpty then none
  else
    let t := tagRest [] false (cs.dropWhile isTagChar)
    let name := String.ofList tag
    if textTags.contains name && !t.closed then
      let (content, rest) := textBody tag t.rest
      let content := if rawTags.contains name then content else decode content
      some (.start tag t.attributes (.text content), rest)
    else if t.closed || voidTags.contains name then some (.start tag t.attributes .none, t.rest)
    else some (.start tag t.attributes .opened, t.rest)

theorem startTag?_length {cs rest : List Char} {t : Token} (h : startTag? cs = some (t, rest)) :
    rest.length ≤ cs.length := by
  have h1 := Text.length_dropWhile_le isTagChar cs
  have h2 := length_tagRest_le [] false (cs.dropWhile isTagChar)
  have h3 := length_textBody_le (lowerAll (cs.takeWhile isTagChar))
    (tagRest [] false (cs.dropWhile isTagChar)).rest
  simp only [startTag?] at h
  split at h
  · simp at h
  · split at h
    · simp only [Option.some.injEq, Prod.mk.injEq] at h
      obtain ⟨-, rfl⟩ := h
      omega
    · split at h <;>
      · simp only [Option.some.injEq, Prod.mk.injEq] at h
        obtain ⟨-, rfl⟩ := h
        omega

/-- What follows the first `-->`, nothing if there is none. -/
def pastComment (cs : List Char) : List Char :=
  ((Text.splitAt? ['-', '-', '>'] cs).map (·.2)).getD []

theorem after?_length {p cs rest : List Char} (h : Text.after? p cs = some rest) :
    rest.length ≤ cs.length := by
  induction p generalizing cs with
  | nil => simp_all [Text.after?]
  | cons p ps ih =>
      cases cs with
      | nil => simp [Text.after?] at h
      | cons c cs =>
          simp only [Text.after?] at h
          split at h
          · have := ih h
            simp only [List.length_cons]
            omega
          · simp at h

theorem splitAt?_length {p cs before rest : List Char}
    (h : Text.splitAt? p cs = some (before, rest)) : rest.length ≤ cs.length := by
  induction cs generalizing before with
  | nil =>
      simp only [Text.splitAt?, Option.map_eq_some_iff, Prod.mk.injEq] at h
      obtain ⟨r, hr, -, rfl⟩ := h
      exact after?_length hr
  | cons c cs ih =>
      simp only [Text.splitAt?] at h
      split at h
      · next r hr =>
          simp only [Option.some.injEq, Prod.mk.injEq] at h
          obtain ⟨-, rfl⟩ := h
          exact after?_length hr
      · simp only [Option.map_eq_some_iff, Prod.mk.injEq, Prod.exists] at h
        obtain ⟨b, r, hr, -, rfl⟩ := h
        have := ih hr
        simp only [List.length_cons]
        omega

theorem length_pastComment_le (cs : List Char) : (pastComment cs).length ≤ cs.length := by
  unfold pastComment
  cases h : Text.splitAt? ['-', '-', '>'] cs with
  | none => simp
  | some p => exact @splitAt?_length _ _ p.1 _ h

/-- The text held back, reversed, as a part. -/
def heldText (held : List Char) : List Token :=
  if held.isEmpty then [] else [.text (decode held.reverse)]

/-- The parts of a text of which `held` was read since the last tag. -/
def tokensFrom (held cs : List Char) : List Token :=
  match cs with
  | [] => heldText held
  | c :: cs =>
    if c != '<' then tokensFrom (c :: held) cs
    else
      heldText held ++
        match cs with
        | '!' :: '-' :: '-' :: cs => tokensFrom [] (pastComment cs)
        | '!' :: cs => tokensFrom [] (past '>' cs)
        | '?' :: cs => tokensFrom [] (past '>' cs)
        | '/' :: cs =>
          .stop (lowerAll (Text.trim (cs.takeWhile (· != '>')))) :: tokensFrom [] (past '>' cs)
        | cs =>
          match _h : startTag? cs with
          | some (t, rest) => t :: tokensFrom [] rest
          | none => tokensFrom ('<' :: held) cs
termination_by cs.length
decreasing_by
  · simp
  · have := length_pastComment_le cs
    simp only [List.length_cons]
    omega
  · have := length_past_le '>' cs
    simp only [List.length_cons]
    omega
  · have := length_past_le '>' cs
    simp only [List.length_cons]
    omega
  · have := length_past_le '>' cs
    simp only [List.length_cons]
    omega
  · have := startTag?_length _h
    simp only [List.length_cons]
    omega
  · simp

def tokens (cs : List Char) : List Token := tokensFrom [] cs

end BrowserScript.Html
