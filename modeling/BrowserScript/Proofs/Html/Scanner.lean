import Mathlib
import BrowserScript.Dom.Markup
import BrowserScript.Proofs.Html.Printed
import BrowserScript.Proofs.Text.Bytes
import BrowserScript.Proofs.Text.Pieces

/-!
Markup read by places. The scanner goes through the bytes of a text; each byte is looked at and each
part is taken by its place, which fails where there is none, and what has to be repeated is a loop
that nothing but its turns brings to an end.
-/

namespace BrowserScript.Html.Scanner

open Text

/-! ## Loops -/

/-- What a turn of a loop leads to. -/
inductive Turn (σ β : Type)
  | again (s : σ)
  | leave (b : β)

/-- What a loop is left with from here on; none if a turn fails or no turn leaves it. -/
def Turn.follow (turn : σ → Option (Turn σ β)) (here : Turn σ β) : Option β :=
  match here with
  | .leave b => some b
  | .again s => do
    let next ← turn s
    next |>.follow turn
partial_fixpoint

/-- What a loop is left with that begins with a state. -/
def iterate (turn : σ → Option (Turn σ β)) (s : σ) : Option β := Turn.follow turn (.again s)

/-- Whether a byte passes a test; no byte is looked at behind the text. -/
def sees? (p : Char → Bool) (bs : List UInt8) (i : Nat) : Option Bool :=
  if i < bs.length then (byteAt? bs i).map p else some false

def skipTurn (p : Char → Bool) (bs : List UInt8) (i : Nat) : Option (Turn Nat Nat) :=
  (sees? p bs i).map fun pass => if pass then .again (i + 1) else .leave i

/-- The place after the bytes that pass a test. -/
def skip? (p : Char → Bool) (bs : List UInt8) (i : Nat) : Option Nat := iterate (skipTurn p bs) i

/-! ## References -/

/-- What was decoded, and what was not yet. -/
structure Decoding where
  out : List Char
  rest : List Char

def namedReferences : List (List Char × Char) :=
  [("amp".toList, '&'), ("lt".toList, '<'), ("gt".toList, '>'), ("quot".toList, '"'),
    ("apos".toList, '\''), ("#39".toList, '\''), ("nbsp".toList, '\u00a0')]

/-- The character of a reference, if it is one. -/
def referenceOf? (name : List Char) : Option (Option Char) :=
  match namedReferences.lookup name with
  | some c => some (some c)
  | none =>
    if "#x".toList.isPrefixOf name || "#X".toList.isPrefixOf name then
      (sliceFrom? name 2).map fun ds => (number? 16 ds).bind charOf?
    else if "#".toList.isPrefixOf name then
      (sliceFrom? name 1).map fun ds => (number? 10 ds).bind charOf?
    else some none

/-- From the place of an ampersand on: what stands for it, and what follows. -/
def ampersand? (rest : List Char) : Option (Char × List Char) :=
  match (findText? [';'] rest).filter (· ≤ 10) with
  | none => (sliceFrom? rest 1).map ('&', ·)
  | some stop => do
    match ← referenceOf? (← slice? rest 1 stop) with
    | some c => (sliceFrom? rest (stop + 1)).map (c, ·)
    | none => (sliceFrom? rest 1).map ('&', ·)

def decodeTurn (s : Decoding) : Option (Turn Decoding (List Char)) :=
  match findText? ['&'] s.rest with
  | none => some (.leave (s.out ++ s.rest))
  | some place => do
    let before ← slice? s.rest 0 place
    let (c, rest) ← ampersand? (← sliceFrom? s.rest place)
    return .again ⟨s.out ++ before ++ [c], rest⟩

def decode? (raw : List Char) : Option (List Char) :=
  if (findText? ['&'] raw).isNone then some raw else iterate decodeTurn ⟨[], raw⟩

/-! ## Start tags -/

/-- How far a start tag was read. -/
structure TagState where
  place : Nat
  attributes : Attributes
  closed : Bool

def isQuote (c : Char) : Bool := c == '"' || c == '\''

def endsValue (c : Char) : Bool := isMarkupBlank c || c == '>'

/-- The value that begins with the quote at a place, and the place after it. -/
def quotedValue? (text : List Char) (i : Nat) : Option (List Char × Nat) := do
  let bs := bytes text
  let quote ← byteAt? bs i
  let stop := (← findByte? bs (i + 1) quote).getD bs.length
  let value ← decode? (← slice? text (i + 1) stop)
  return (value, min (stop + 1) bs.length)

/-- The value that begins at a place without a quote, and the place after it. -/
def plainValue? (text : List Char) (i : Nat) : Option (List Char × Nat) := do
  let stop ← skip? (!endsValue ·) (bytes text) i
  let value ← decode? (← slice? text i stop)
  return (value, stop)

def value? (text : List Char) (i : Nat) : Option (List Char × Nat) := do
  let i ← skip? isMarkupBlank (bytes text) i
  if ← sees? isQuote (bytes text) i then quotedValue? text i else plainValue? text i

/-- What follows the name of an attribute: its value, if there is an equals sign. -/
def valueAfter? (text : List Char) (i : Nat) : Option (List Char × Nat) := do
  let i ← skip? isMarkupBlank (bytes text) i
  if ← sees? (· == '=') (bytes text) i then value? text (i + 1) else return ([], i)

/-- What begins behind blanks within a tag. -/
def attributeAt? (text : List Char) (s : TagState) (i : Nat) :
    Option (Turn TagState TagState) := do
  let c ← byteAt? (bytes text) i
  if c == '>' then return .leave { s with place := i + 1 }
  else if c == '/' then return .again { s with place := i + 1, closed := true }
  else
    let stop ← skip? (!endsName ·) (bytes text) i
    if stop = i then return .again { s with place := i + 1 }
    else
      let name ← slice? text i stop
      let (value, next) ← valueAfter? text stop
      return .again ⟨next, addAttribute s.attributes (lowerAll name) value, false⟩

def attributeTurn (text : List Char) (s : TagState) : Option (Turn TagState TagState) := do
  let i ← skip? isMarkupBlank (bytes text) s.place
  if i < (bytes text).length then attributeAt? text s i else return .leave { s with place := i }

/-- The start tag whose bracket is at a place, if one starts there, and how it was read. -/
def startTagAt? (text : List Char) (i : Nat) : Option (Option (List Char × TagState)) := do
  let stop ← skip? isTagChar (bytes text) (i + 1)
  if stop = i + 1 then return none
  else
    let tag ← slice? text (i + 1) stop
    let t ← iterate (attributeTurn text) ⟨stop, [], false⟩
    return some (lowerAll tag, t)

/-! ## Markup -/

variable {γ : Type}

/-- The place after the first such byte, the end if there is none. -/
def pastByte? (bs : List UInt8) (i : Nat) (c : Char) : Option Nat :=
  (findByte? bs i c).map fun place => (place.map (· + 1)).getD bs.length

/-- The place after the comment that begins at a place. -/
def pastComment? (text : List Char) (i : Nat) : Option Nat :=
  (sliceFrom? text (i + 4)).map fun rest =>
    ((findText? "-->".toList rest).map (i + 4 + · + 3)).getD (byteLength text)

/-- The text that a tag begins; no reference is looked for in an empty or a raw one. -/
def tagText? (raw : Bool) (cs : List Char) : Option (List Char) :=
  if cs.isEmpty || raw then some cs else decode? cs

/-- The text from a place up to the end tag of that name, and the place after the end tag. -/
def textBody? (text tag : List Char) (i : Nat) : Option (List Char × Nat) := do
  let lower := lowerAll (← sliceFrom? text i)
  let stop := ((findText? ('<' :: '/' :: tag) lower).map (i + ·)).getD (byteLength text)
  let content ← tagText? (rawTags.contains (String.ofList tag)) (← slice? text i stop)
  let next ← pastByte? (bytes text) stop '>'
  return (content, next)

/-- What a start tag begins, and the place to go on from. -/
def body? (text tag : List Char) (t : TagState) : Option (Body × Nat) :=
  if textTags.contains (String.ofList tag) && !t.closed then
    (textBody? text tag t.place).map fun found => (.text found.1, found.2)
  else if !t.closed && !voidTags.contains (String.ofList tag) then some (.opened, t.place)
  else some (.none, t.place)

/-- The part that begins with the start tag at a place, and the place to go on from; none if no
start tag is there. -/
def startAt? (text : List Char) (i : Nat) : Option (Option (Token × Nat)) := do
  match ← startTagAt? text i with
  | none => return none
  | some (tag, t) =>
    (body? text tag t).map fun found => some (.start tag t.attributes found.1, found.2)

def stopAt? (text : List Char) (i : Nat) : Option (Token × Nat) := do
  let stop := (← findByte? (bytes text) i '>').getD (byteLength text)
  let name ← slice? text (i + 2) stop
  return (.stop (lowerAll (trim name)), min (stop + 1) (byteLength text))

/-- What begins with the `<` at a place, as a part to pass on or none, and the place to go on from;
none of both if the `<` is text. -/
def part? (text : List Char) (i : Nat) : Option (Option (Option Token × Nat)) := do
  let rest ← sliceFrom? text i
  if "<!--".toList.isPrefixOf rest then
    (pastComment? text i).map fun next => some (none, next)
  else if "<!".toList.isPrefixOf rest || "<?".toList.isPrefixOf rest then
    (pastByte? (bytes text) i '>').map fun next => some (none, next)
  else if "</".toList.isPrefixOf rest then
    (stopAt? text i).map fun found => some (some found.1, found.2)
  else
    (startAt? text i).map (Option.map fun found => (some found.1, found.2))

/-- How far markup was read, from where on its text was not yet passed on, and what became of the
parts before. -/
structure Scan (γ : Type) where
  place : Nat
  start : Nat
  out : γ

/-- Pass on a text unless it is empty. -/
def flush? (emit : γ → Token → Option γ) (out : γ) (raw : List Char) : Option γ :=
  if raw.isEmpty then some out else (decode? raw).bind fun cs => emit out (.text cs)

/-- From a `<` on. Where it starts nothing, the text before it is passed on and yet kept. -/
def bracketTurn (emit : γ → Token → Option γ) (text : List Char) (s : Scan γ) :
    Option (Turn (Scan γ) (Scan γ)) := do
  let out ← flush? emit s.out (← slice? text s.start s.place)
  match ← part? text s.place with
  | none => return .again ⟨s.place + 1, s.start, out⟩
  | some (token, next) => return .again ⟨next, next, ← token.toList.foldlM emit out⟩

def scanTurn (emit : γ → Token → Option γ) (text : List Char) (s : Scan γ) :
    Option (Turn (Scan γ) (Scan γ)) :=
  if s.place < (bytes text).length then do
    let c ← byteAt? (bytes text) s.place
    if c == '<' then bracketTurn emit text s else return .again { s with place := s.place + 1 }
  else some (.leave s)

/-- Pass on the parts of a text one after another. -/
def scan? (emit : γ → Token → Option γ) (out : γ) (text : List Char) : Option γ := do
  let s ← iterate (scanTurn emit text) ⟨0, 0, out⟩
  flush? emit s.out (← sliceFrom? text (min s.start (byteLength text)))

/-- Add a part to a document. A text or an element is added below a node of the document. -/
def put? (base : Dom.NodeId) (g : Dom.Graft) (t : Token) : Option Dom.Graft :=
  match t with
  | .stop _ => some (g.add base t)
  | _ => if g.parent base < g.dom.size then some (g.add base t) else none

def addMarkup? (d : Dom) (base : Dom.NodeId) (text : List Char) : Option Dom :=
  (scan? (put? base) ⟨d, []⟩ text).map (·.dom)

variable {σ β : Type} {turn : σ → Option (Turn σ β)} {s s' : σ} {b : β} {p : Char → Bool}
  {c : Char} {before cs ds name rest text : List Char} {i : Nat}

/-! ## Rules for loops -/

theorem iterate_again (next : turn s = some (.again s')) : iterate turn s = iterate turn s' := by
  rw [iterate, Turn.follow, next]
  rfl

theorem iterate_leave (done : turn s = some (.leave b)) : iterate turn s = some b := by
  rw [iterate, Turn.follow, done, Option.bind_eq_bind, Option.bind_some, Turn.follow]

theorem iterate_fail (missing : turn s = none) : iterate turn s = none := by
  rw [iterate, Turn.follow, missing]
  rfl

theorem skip?_eq (p : Char → Bool) (bs : List UInt8) (i : Nat) :
    skip? p bs i = some (i + ((bs.drop i).takeWhile (p <| Char.ofUInt8 ·)).length) := by
  induction left : bs.length - i generalizing i with
  | zero =>
      have behind : bs.length ≤ i := Nat.le_of_sub_eq_zero left
      have turn : skipTurn p bs i = some (.leave i) := by
        rw [skipTurn, sees?, if_neg (Nat.not_lt.mpr behind)]
        rfl
      rw [skip?, iterate_leave turn, List.drop_eq_nil_of_le behind]
      rfl
  | succ left ih =>
      have within : i < bs.length := by omega
      have turn : skipTurn p bs i =
          some (if p (Char.ofUInt8 bs[i]) then .again (i + 1) else .leave i) := by
        rw [skipTurn, sees?, if_pos within, byteAt?, List.getElem?_eq_getElem within]
        rfl
      have more (pass : p (Char.ofUInt8 bs[i])) :=
        @List.takeWhile_cons_of_pos _ (p <| Char.ofUInt8 ·) bs[i] (bs.drop (i + 1)) pass
      rw [List.drop_eq_getElem_cons within]
      cases pass : p (Char.ofUInt8 bs[i]) with
      | true =>
          rw [pass, if_pos rfl] at turn
          have rest := ih (i + 1) (by omega)
          rw [skip?] at rest ⊢
          rw [iterate_again turn, rest, more pass, List.length_cons, Nat.add_assoc, Nat.add_comm 1]
      | false =>
          rw [pass, if_neg Bool.false_ne_true] at turn
          rw [skip?, iterate_leave turn, List.takeWhile_cons_of_neg (by simp [pass])]
          rfl

theorem skip?_at (here : At text i rest) (test : IsAsciiTest p) :
    skip? p (bytes text) i = some (i + byteLength (rest.takeWhile p)) := by
  rw [skip?_eq, here.drop_bytes, takeWhile_bytes test, length_bytes]

theorem at_dropWhile (here : At text i rest) (p : Char → Bool) :
    At text (i + byteLength (rest.takeWhile p)) (rest.dropWhile p) := by
  rw [← List.takeWhile_append_dropWhile (p := p) (l := rest)] at here
  exact here.after

theorem slice?_takeWhile (here : At text i rest) (p : Char → Bool) :
    slice? text i (i + byteLength (rest.takeWhile p)) = some (rest.takeWhile p) := by
  have split := here
  rw [← List.takeWhile_append_dropWhile (p := p) (l := rest)] at split
  exact split.slice?

theorem sees?_at (here : At text i rest) (test : IsAsciiTest p) :
    sees? p (bytes text) i = some (rest.head?.any p) := by
  rw [sees?, length_bytes, here.byteLength]
  cases rest with
  | nil => rw [byteLength_nil, if_neg (by omega), List.head?_nil, Option.any_none]
  | cons c rest =>
      obtain ⟨x, there, same⟩ := here.byteAt?
      have some := Char.utf8Size_pos c
      rw [byteLength_cons, if_pos (by omega), there, Option.map_some, same p test,
        List.head?_cons, Option.any_some]

/-! ## Searches -/

theorem takeWhile_before (free : c ∉ before) (rest : List Char) :
    (before ++ c :: rest).takeWhile (· != c) = before := by
  have passed : ∀ x ∈ before, (x != c) = true := fun x mem => by
    simpa using fun same : x = c => free (same ▸ mem)
  rw [List.takeWhile_append_of_pos passed, List.takeWhile_cons_of_neg (by simp), List.append_nil]

theorem past_before (free : c ∉ before) (rest : List Char) :
    past c (before ++ c :: rest) = rest := by
  have others : ∀ x ∈ before, x ≠ c := fun x mem same => free (same ▸ mem)
  exact past_append others rest

theorem takeWhile_of_notMem (absent : c ∉ cs) : cs.takeWhile (· != c) = cs :=
  List.takeWhile_eq_self_iff.mpr fun x mem => by
    simpa using fun same : x = c => absent (same ▸ mem)

theorem past_of_notMem (absent : c ∉ cs) : past c cs = [] := by
  have all : cs.dropWhile (· != c) = [] := List.dropWhile_eq_nil_iff.mpr fun x mem => by
    simpa using fun same : x = c => absent (same ▸ mem)
  rw [past, all]
  rfl

theorem findText?_before (free : c ∉ before) (rest : List Char) :
    findText? [c] (before ++ c :: rest) = some (byteLength before) := by
  rw [findText?, splitAt?_singleton free]
  rfl

theorem findText?_of_notMem (absent : c ∉ cs) : findText? [c] cs = none := by
  have missing : ¬ [c] <:+: cs := fun inside => absent (inside.subset List.mem_cons_self)
  rw [findText?, splitAt?_eq_none_iff.mpr missing]
  rfl

theorem findText?_of_first {piece : List Char} (here : piece <+: c :: cs) :
    findText? piece (c :: cs) = some 0 := by
  obtain ⟨after, split⟩ := here
  rw [findText?, splitAt?, after?_eq_some_iff.mpr split.symm]
  rfl

theorem findText?_cons_of_missing {piece : List Char} (missing : ¬ piece <+: c :: cs) :
    findText? piece (c :: cs) = (findText? piece cs).map (c.utf8Size + ·) := by
  rw [findText?, splitAt?_cons_of_missing missing, findText?, Option.map_map, Option.map_map]
  congr 1
  funext parts
  exact byteLength_cons c parts.1

/-- The place after the first such character, or the end. -/
theorem at_past (here : At text i rest) (ascii : isAscii c) :
    At text (min (i + byteLength (rest.takeWhile (· != c)) + 1) (byteLength text))
      (past c rest) := by
  by_cases mem : c ∈ rest
  · obtain ⟨before, after, rfl, free⟩ := List.eq_append_cons_of_mem mem
    have there := here.after.next ascii
    have within := there.byteLength
    rwa [takeWhile_before free, past_before free, Nat.min_eq_left (by omega)]
  · rw [takeWhile_of_notMem mem, past_of_notMem mem, ← here.byteLength,
      Nat.min_eq_right (Nat.le_succ _)]
    exact At.last text

theorem findByte?_at (here : At text i rest) (ascii : isAscii c) :
    ∃ place, findByte? (bytes text) i c = some place ∧
      place.getD (byteLength text) = i + byteLength (rest.takeWhile (· != c)) := by
  refine ⟨_, here.findByte? ascii, ?_⟩
  split_ifs with mem
  · rfl
  · rw [takeWhile_of_notMem mem, ← here.byteLength]
    rfl

theorem pastByte?_at (here : At text i rest) (ascii : isAscii c) :
    ∃ next, pastByte? (bytes text) i c = some next ∧ At text next (past c rest) := by
  refine ⟨_, congrArg (Option.map _) (here.findByte? ascii), ?_⟩
  split_ifs with mem
  · obtain ⟨before, after, rfl, free⟩ := List.eq_append_cons_of_mem mem
    rw [takeWhile_before free, past_before free]
    exact here.after.next ascii
  · show At text (bytes text).length _
    rw [past_of_notMem mem, length_bytes]
    exact At.last text

/-! ## What references are decoded to -/

/-- What an ampersand is decoded to with what follows it, and what is left. -/
def reference (cs : List Char) : Char × List Char :=
  match reference? cs with
  | some (c, n) => (c, cs.drop (n + 1))
  | none => ('&', cs)

theorem referenceOf?_hex {x : Char} (hex : x = 'x' ∨ x = 'X') (ds : List Char) :
    referenceOf? ('#' :: x :: ds) = some ((number? 16 ds).bind charOf?) := by
  have ascii : isAscii x := by rcases hex with rfl | rfl <;> rfl
  have digits : sliceFrom? ('#' :: x :: ds) 2 = some ds :=
    (((At.first ('#' :: x :: ds)).next rfl).next ascii).sliceFrom?
  have unnamed : namedReferences.lookup ('#' :: x :: ds) = none := by
    rcases hex with rfl | rfl <;> simp [namedReferences, List.lookup]
  rw [referenceOf?, unnamed, digits]
  rcases hex with rfl | rfl <;> simp

theorem referenceOf?_decimal (small : ∀ r, ds ≠ 'x' :: r) (large : ∀ r, ds ≠ 'X' :: r) :
    referenceOf? ('#' :: ds) = some ((number? 10 ds).bind charOf?) := by
  -- one number is a name as well, of the character that it names as a number
  by_cases quote : ds = ['3', '9']
  · subst quote
    rfl
  · have digits : sliceFrom? ('#' :: ds) 1 = some ds :=
      ((At.first ('#' :: ds)).next rfl).sliceFrom?
    have unnamed : namedReferences.lookup ('#' :: ds) = none :=
      List.lookup_eq_none_iff.mpr (by simp [namedReferences, quote])
    have decimal : ¬ ("#x".toList.isPrefixOf ('#' :: ds) ||
        "#X".toList.isPrefixOf ('#' :: ds)) := by
      cases ds with
      | nil => decide
      | cons d ds =>
          have x : 'x' ≠ d := fun same => small ds (same ▸ rfl)
          have X : 'X' ≠ d := fun same => large ds (same ▸ rfl)
          simp [x, X]
    rw [referenceOf?, unnamed, digits]
    simp only [decimal]
    rfl

theorem referenceOf?_eq (name : List Char) : referenceOf? name = some (entity? name) := by
  unfold entity?
  split
  · rfl
  · rfl
  · rfl
  · rfl
  · rfl
  · rfl
  · exact referenceOf?_hex (.inl rfl) _
  · exact referenceOf?_hex (.inr rfl) _
  · rename_i small large
    exact referenceOf?_decimal small large
  · rename_i amp lt gt quot apos nbsp _ _ number
    have unnamed : namedReferences.lookup name = none :=
      List.lookup_eq_none_iff.mpr (by
        simpa [namedReferences] using ⟨amp, lt, gt, quot, apos, number ['3', '9'], nbsp⟩)
    have apart (more : List Char) : ('#' :: more).isPrefixOf name = false := by
      by_contra starts
      obtain ⟨rest, split⟩ := List.isPrefixOf_iff_prefix.mp (Bool.not_eq_false _ ▸ starts)
      exact number _ split.symm
    rw [referenceOf?, unnamed]
    simp [apart]

theorem reference?_before (free : ';' ∉ name) (rest : List Char) :
    reference? (name ++ ';' :: rest) =
      if byteLength name ≤ 9 then (entity? name).map (·, name.length) else none := by
  by_cases short : name.length ≤ 9
  · have window : (name ++ ';' :: rest).take 10 = name ++ ';' :: rest.take (9 - name.length) := by
      rw [List.take_append, List.take_of_length_le (by omega),
        show 10 - name.length = 9 - name.length + 1 by omega, List.take_succ_cons]
    have ends : name.length < (name ++ ';' :: rest.take (9 - name.length)).length := by simp
    rw [reference?, window, takeWhile_before free]
    simp only [ends]
    simp
  · have long := length_le_byteLength name
    have window : (name ++ ';' :: rest).take 10 = name.take 10 :=
      List.take_append_of_le_length (by omega)
    have absent : ';' ∉ name.take 10 := fun mem => free (List.mem_of_mem_take mem)
    have far : ¬ byteLength name ≤ 9 := fun near => short (long.trans near)
    rw [reference?, window, takeWhile_of_notMem absent, if_neg far]
    simp

theorem reference?_of_notMem (absent : ';' ∉ cs) : reference? cs = none := by
  have none : ';' ∉ cs.take 10 := fun mem => absent (List.mem_of_mem_take mem)
  rw [reference?, takeWhile_of_notMem none]
  simp

theorem ampersand?_eq (cs : List Char) : ampersand? ('&' :: cs) = some (reference cs) := by
  have next : At ('&' :: cs) 1 cs := (At.first ('&' :: cs)).next rfl
  have same : sliceFrom? ('&' :: cs) 1 = some cs := next.sliceFrom?
  by_cases mem : ';' ∈ cs
  · obtain ⟨name, rest, rfl, free⟩ := List.eq_append_cons_of_mem mem
    have found : findText? [';'] ('&' :: (name ++ ';' :: rest)) = some (1 + byteLength name) := by
      have free : ';' ∉ '&' :: name := by simpa using free
      exact (findText?_before free rest).trans (congrArg some (byteLength_cons '&' name))
    have named : slice? ('&' :: (name ++ ';' :: rest)) 1 (1 + byteLength name) = some name :=
      next.slice?
    have after : sliceFrom? ('&' :: (name ++ ';' :: rest)) (1 + byteLength name + 1) = some rest :=
      (next.after.next rfl).sliceFrom?
    have left : (name ++ ';' :: rest).drop (name.length + 1) = rest := by simp
    rw [ampersand?, reference, found, reference?_before free]
    by_cases near : byteLength name ≤ 9
    · have within : 1 + byteLength name ≤ 10 := by omega
      rw [Option.filter_some_pos (by simpa using within), if_pos near]
      cases known : entity? name with
      | none => simp [named, referenceOf?_eq, known, same]
      | some c => simp [named, referenceOf?_eq, known, after]
    · have beyond : ¬ 1 + byteLength name ≤ 10 := by omega
      rw [Option.filter_some_neg (by simpa using beyond), if_neg near]
      simp [same]
  · have found : findText? [';'] ('&' :: cs) = none := findText?_of_notMem (by simpa using mem)
    rw [ampersand?, reference, found, reference?_of_notMem mem]
    simp [same]

/-! ## Decoding -/

theorem decodeFrom_drop (n : Nat) (cs : List Char) : decodeFrom n cs = decode (cs.drop n) := by
  induction n generalizing cs with
  | zero => rfl
  | succ n ih =>
      cases cs with
      | nil => rfl
      | cons c cs => exact ih cs

theorem decode_ampersand (cs : List Char) :
    decode ('&' :: cs) = (reference cs).1 :: decode (reference cs).2 := by
  rw [decode, decodeFrom, if_pos rfl, reference]
  cases reference? cs with
  | none => rfl
  | some found => exact congrArg (found.1 :: ·) (decodeFrom_drop (found.2 + 1) cs)

theorem decode_before (free : '&' ∉ before) (rest : List Char) :
    decode (before ++ rest) = before ++ decode rest := by
  induction before with
  | nil => rfl
  | cons c before ih =>
      rw [List.mem_cons, not_or] at free
      rw [List.cons_append, decode, decodeFrom, if_neg (Ne.symm free.1)]
      exact congrArg (c :: ·) (ih free.2)

theorem decode_of_notMem (absent : '&' ∉ cs) : decode cs = cs := by
  have whole := decode_before absent []
  rwa [List.append_nil, show decode [] = [] from rfl, List.append_nil] at whole

theorem decodeTurn_before (free : '&' ∉ before) (out cs : List Char) :
    decodeTurn ⟨out, before ++ '&' :: cs⟩ =
      some (.again ⟨out ++ before ++ [(reference cs).1], (reference cs).2⟩) := by
  have first := At.first (before ++ '&' :: cs)
  have taken := first.slice?
  have there := first.after.sliceFrom?
  rw [Nat.zero_add] at taken there
  rw [decodeTurn, findText?_before free]
  simp [taken, there, ampersand?_eq]

theorem decodeTurn_of_notMem (absent : '&' ∉ rest) (out : List Char) :
    decodeTurn ⟨out, rest⟩ = some (.leave (out ++ rest)) := by
  rw [decodeTurn, findText?_of_notMem absent]

theorem reference_suffix (cs : List Char) : (reference cs).2 <:+ cs := by
  rw [reference]
  split
  · exact List.drop_suffix ..
  · exact List.suffix_rfl

theorem iterate_decodeTurn (out rest : List Char) :
    iterate decodeTurn ⟨out, rest⟩ = some (out ++ decode rest) := by
  induction long : rest.length using Nat.strongRecOn generalizing out rest with
  | ind n ih =>
      by_cases mem : '&' ∈ rest
      · obtain ⟨before, cs, rfl, free⟩ := List.eq_append_cons_of_mem mem
        have shorter := (reference_suffix cs).length_le
        rw [List.length_append, List.length_cons] at long
        rw [iterate_again (decodeTurn_before free out cs), ih _ (by omega) _ _ rfl,
          decode_before free, decode_ampersand]
        simp
      · rw [iterate_leave (decodeTurn_of_notMem mem out), decode_of_notMem mem]

theorem decode?_eq (raw : List Char) : decode? raw = some (decode raw) := by
  unfold decode?
  split_ifs with plain
  · have absent : '&' ∉ raw := fun mem => by
      obtain ⟨before, rest, rfl, free⟩ := List.eq_append_cons_of_mem mem
      rw [findText?_before free] at plain
      cases plain
    rw [decode_of_notMem absent]
  · exact iterate_decodeTurn [] raw

end BrowserScript.Html.Scanner
