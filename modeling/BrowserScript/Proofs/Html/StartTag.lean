import BrowserScript.Proofs.Html.Scanner

/-!
Start tags as they are scanned: from the bracket on the scanner finds the name, the attributes and
the content that are read of the tag, and is then where the reader goes on.
-/

namespace BrowserScript.Html.Scanner

open Text

variable {c : Char} {attributes : Attributes} {closed : Bool}
  {cs r rest text : List Char} {i : Nat}

/-! ## Tests -/

theorem isAscii_of_isMarkupBlank (c : Char) (blank : isMarkupBlank c) : isAscii c := by
  simp only [isMarkupBlank, Bool.or_eq_true, beq_iff_eq] at blank
  rcases blank with (((rfl | rfl) | rfl) | rfl) | rfl <;> rfl

theorem isAscii_of_endsName (c : Char) (ends : endsName c) : isAscii c := by
  simp only [endsName, Bool.or_eq_true, beq_iff_eq] at ends
  rcases ends with ((blank | rfl) | rfl) | rfl
  · exact isAscii_of_isMarkupBlank c blank
  · rfl
  · rfl
  · rfl

theorem isAscii_of_isTagChar (c : Char) (letter : isTagChar c) : isAscii c := by
  have upTo {d : Char} (ascii : isAscii d) (le : c ≤ d) : isAscii c :=
    decide_eq_true (Nat.lt_of_le_of_lt (UInt32.le_iff_toNat_le.mp le) (of_decide_eq_true ascii))
  simp only [isTagChar, isAsciiLetter, isAsciiDigit, Bool.or_eq_true, Bool.and_eq_true,
    decide_eq_true_eq, beq_iff_eq] at letter
  rcases letter with (((letter | letter) | digit) | rfl) | rfl
  · exact upTo rfl letter.2
  · exact upTo rfl letter.2
  · exact upTo rfl digit.2
  · rfl
  · rfl

theorem isAscii_of_isQuote (c : Char) (quote : isQuote c) : isAscii c := by
  obtain quote | quote := Bool.or_eq_true_iff.mp quote <;>
  · rw [eq_of_beq quote]
    rfl

theorem isAscii_of_endsValue (c : Char) (ends : endsValue c) : isAscii c := by
  obtain blank | greater := Bool.or_eq_true_iff.mp ends
  · exact isAscii_of_isMarkupBlank c blank
  · rw [eq_of_beq greater]
    rfl

theorem isAsciiTest_blank : IsAsciiTest isMarkupBlank :=
  isAsciiTest_of_ascii isAscii_of_isMarkupBlank

theorem isAsciiTest_name : IsAsciiTest (!endsName ·) :=
  (isAsciiTest_of_ascii isAscii_of_endsName).not

theorem isAsciiTest_tag : IsAsciiTest isTagChar := isAsciiTest_of_ascii isAscii_of_isTagChar

/-! ## Values -/

theorem quotedValue?_at (here : At text i (c :: rest)) (quote : isQuote c) :
    ∃ next, quotedValue? text i = some (decode (rest.takeWhile (· != c)), next) ∧
      At text next (past c rest) := by
  have ascii := isAscii_of_isQuote c quote
  have byte := here.byteAt?_ascii ascii
  obtain ⟨place, found, stop⟩ := findByte?_at (here.next ascii) ascii
  refine ⟨_, ?_, at_past (here.next ascii) ascii⟩
  simp [quotedValue?, byte, found, stop, slice?_takeWhile (here.next ascii), decode?_eq]

theorem plainValue?_at (here : At text i rest) :
    ∃ next, plainValue? text i = some (decode (rest.takeWhile (!endsValue ·)), next) ∧
      At text next (rest.dropWhile (!endsValue ·)) := by
  have test := (isAsciiTest_of_ascii isAscii_of_endsValue).not
  refine ⟨_, ?_, at_dropWhile here _⟩
  simp [plainValue?, skip?_at here test, slice?_takeWhile here, decode?_eq]

theorem value_cons (first : cs.dropWhile isMarkupBlank = c :: r) :
    value cs = if isQuote c then (decode (r.takeWhile (· != c)), past c r)
      else (decode ((c :: r).takeWhile (!endsValue ·)), (c :: r).dropWhile (!endsValue ·)) := by
  rw [value, first]
  rfl

theorem value?_at (here : At text i cs) :
    ∃ next, value? text i = some ((value cs).1, next) ∧ At text next (value cs).2 := by
  have there := at_dropWhile here isMarkupBlank
  have quotes := sees?_at there (isAsciiTest_of_ascii isAscii_of_isQuote)
  simp only [value?, skip?_at here isAsciiTest_blank, quotes, Option.bind_eq_bind,
    Option.bind_some]
  cases first : cs.dropWhile isMarkupBlank with
  | nil =>
      rw [first] at there
      have none : value cs = ([], []) := by rw [value, first]
      rw [none]
      exact plainValue?_at there
  | cons c after =>
      rw [first] at there
      rw [value_cons first, List.head?_cons, Option.any_some]
      split_ifs with quote
      · exact quotedValue?_at there quote
      · exact plainValue?_at there

theorem valueAfter_equals (first : cs.dropWhile isMarkupBlank = '=' :: r) :
    valueAfter cs = value r := by
  rw [valueAfter, first]
  rfl

theorem valueAfter_other (other : (cs.dropWhile isMarkupBlank).head? ≠ some '=') :
    valueAfter cs = ([], cs.dropWhile isMarkupBlank) := by
  rw [valueAfter]
  split
  · rename_i first
    rw [first] at other
    exact absurd rfl other
  · rfl

theorem valueAfter?_at (here : At text i cs) :
    ∃ next, valueAfter? text i = some ((valueAfter cs).1, next) ∧
      At text next (valueAfter cs).2 := by
  have there := at_dropWhile here isMarkupBlank
  have equals := sees?_at there (isAsciiTest_beq (c := '=') rfl)
  simp only [valueAfter?, skip?_at here isAsciiTest_blank, equals, Option.bind_eq_bind,
    Option.bind_some]
  by_cases first : (cs.dropWhile isMarkupBlank).head? = some '='
  · obtain ⟨r, split⟩ := List.head?_eq_some_iff.mp first
    rw [split] at there
    rw [valueAfter_equals split, first]
    exact value?_at (there.next rfl)
  · have apart : (cs.dropWhile isMarkupBlank).head?.any (· == '=') = false := by
      cases head : (cs.dropWhile isMarkupBlank).head? with
      | none => rfl
      | some c => simpa using fun same : c = '=' => first (head.trans (congrArg some same))
    rw [valueAfter_other first, apart]
    exact ⟨_, rfl, there⟩

/-! ## Attributes -/

variable {s : TagState}

theorem attributeTurn_end (here : At text s.place cs) (none : cs.dropWhile isMarkupBlank = []) :
    ∃ next, attributeTurn text s = some (.leave { s with place := next }) ∧ At text next [] := by
  have there := at_dropWhile here isMarkupBlank
  rw [none] at there
  refine ⟨_, ?_, there⟩
  have stop := there.byteLength
  simp only [attributeTurn, skip?_at here isAsciiTest_blank, Option.bind_eq_bind,
    Option.bind_some, length_bytes]
  rw [if_neg (by rw [stop]; simp)]
  rfl

theorem attributeTurn_at (here : At text s.place cs)
    (first : cs.dropWhile isMarkupBlank = c :: r) :
    ∃ j, At text j (c :: r) ∧ attributeTurn text s = attributeAt? text s j := by
  have there := at_dropWhile here isMarkupBlank
  rw [first] at there
  refine ⟨_, there, ?_⟩
  have more := there.byteLength
  have some := Char.utf8Size_pos c
  rw [byteLength_cons] at more
  simp only [attributeTurn, skip?_at here isAsciiTest_blank, Option.bind_eq_bind,
    Option.bind_some, length_bytes]
  rw [if_pos (by omega)]

theorem attributeAt?_greater (here : At text i ('>' :: r)) :
    attributeAt? text s i = some (.leave { s with place := i + 1 }) := by
  simp [attributeAt?, here.byteAt?_ascii rfl]

theorem attributeAt?_slash (here : At text i ('/' :: r)) :
    attributeAt? text s i = some (.again { s with place := i + 1, closed := true }) := by
  simp [attributeAt?, here.byteAt?_ascii rfl]

theorem attributeAt?_equals (here : At text i ('=' :: r)) :
    attributeAt? text s i = some (.again { s with place := i + 1 }) := by
  have none : ('=' :: r).takeWhile (!endsName ·) = [] := List.takeWhile_cons_of_neg (by decide)
  simp [attributeAt?, here.byteAt?_ascii rfl, skip?_at here isAsciiTest_name, none]

theorem attributeAt?_name (here : At text i (c :: r)) (inside : endsName c = false) :
    ∃ next, attributeAt? text s i = some (.again ⟨next, addAttribute s.attributes
          (lowerAll (c :: r.takeWhile (!endsName ·))) (valueAfter (r.dropWhile (!endsName ·))).1,
        false⟩) ∧
      At text next (valueAfter (r.dropWhile (!endsName ·))).2 := by
  obtain ⟨x, byte, other⟩ := here.byteAt?_ne (Char.utf8Size_pos c)
  rw [Nat.add_zero] at byte
  have greater : x ≠ '>' := other '>' rfl fun same => by simp [same, endsName] at inside
  have slash : x ≠ '/' := other '/' rfl fun same => by simp [same, endsName] at inside
  have name : (c :: r).takeWhile (!endsName ·) = c :: r.takeWhile (!endsName ·) :=
    List.takeWhile_cons_of_pos (by simp [inside])
  have left : (c :: r).dropWhile (!endsName ·) = r.dropWhile (!endsName ·) :=
    List.dropWhile_cons_of_pos (by simp [inside])
  have stop := skip?_at here isAsciiTest_name
  have taken := slice?_takeWhile here (!endsName ·)
  have there := at_dropWhile here (!endsName ·)
  rw [name] at stop taken there
  rw [left] at there
  obtain ⟨next, read, last⟩ := valueAfter?_at there
  have some := Char.utf8Size_pos c
  have moved : i + byteLength (c :: r.takeWhile (!endsName ·)) ≠ i := by
    rw [byteLength_cons]
    omega
  refine ⟨next, ?_, last⟩
  simp only [attributeAt?, byte, stop, taken, read, Option.bind_eq_bind, Option.bind_some,
    beq_iff_eq, if_neg greater, if_neg slash, if_neg moved]
  rfl

theorem tagRest_nil (none : cs.dropWhile isMarkupBlank = []) :
    tagRest attributes closed cs = ⟨attributes, closed, []⟩ := by
  rw [tagRest]
  split
  · rfl
  · rename_i some
    cases none.symm.trans some

/-- A turn reads the rest of the tag, or goes on to where less of it is left. -/
theorem attributeTurn_step (here : At text s.place cs) :
    (∃ next, attributeTurn text s = some (.leave ⟨next,
        (tagRest s.attributes s.closed cs).attributes, (tagRest s.attributes s.closed cs).closed⟩) ∧
      At text next (tagRest s.attributes s.closed cs).rest) ∨
    ∃ s' left, attributeTurn text s = some (.again s') ∧ At text s'.place left ∧
      left.length < cs.length ∧
      tagRest s.attributes s.closed cs = tagRest s'.attributes s'.closed left := by
  cases first : cs.dropWhile isMarkupBlank with
  | nil =>
      rw [tagRest_nil first]
      exact .inl (attributeTurn_end here first)
  | cons c r =>
      have blanks := length_dropWhile_le isMarkupBlank cs
      rw [first, List.length_cons] at blanks
      obtain ⟨j, there, turn⟩ := attributeTurn_at here first
      rw [turn, tagRest_cons first]
      by_cases greater : c = '>'
      · subst greater
        exact .inl ⟨j + 1, attributeAt?_greater there, there.next rfl⟩
      by_cases slash : c = '/'
      · subst slash
        exact .inr ⟨_, r, attributeAt?_slash there, there.next rfl, blanks, rfl⟩
      by_cases equals : c = '='
      · subst equals
        exact .inr ⟨_, r, attributeAt?_equals there, there.next rfl, blanks, rfl⟩
      have solid : isMarkupBlank c = false := by
        have stop := List.head?_dropWhile_not isMarkupBlank cs
        rw [first, List.head?_cons] at stop
        simpa using stop
      have inside : endsName c = false := by
        simp [endsName, solid, greater, slash, equals]
      obtain ⟨next, read, later⟩ := attributeAt?_name there inside
      have value := length_valueAfter_le (r.dropWhile (!endsName ·))
      have name := length_dropWhile_le (!endsName ·) r
      rw [if_neg (by simpa using greater), if_neg (by simpa using slash),
        if_neg (by simpa using equals)]
      exact .inr ⟨_, _, read, later, by omega, rfl⟩

/-- The loop over the attributes reads what is read of a tag behind its name. -/
theorem iterate_attributeTurn (here : At text s.place cs) :
    ∃ next, iterate (attributeTurn text) s = some ⟨next,
        (tagRest s.attributes s.closed cs).attributes, (tagRest s.attributes s.closed cs).closed⟩ ∧
      At text next (tagRest s.attributes s.closed cs).rest := by
  induction long : cs.length using Nat.strongRecOn generalizing s cs with
  | ind n ih =>
      obtain ⟨next, turn, there⟩ | ⟨s', left, turn, there, less, same⟩ := attributeTurn_step here
      · exact ⟨next, iterate_leave turn, there⟩
      · rw [iterate_again turn, same]
        exact ih left.length (long ▸ less) there rfl

/-! ## Names -/

theorem startTagAt?_of_not (here : skip? isTagChar (bytes text) (i + 1) = some (i + 1)) :
    startTagAt? text i = some none := by
  simp [startTagAt?, here]

theorem startTagAt?_at (here : At text (i + 1) cs) (some : cs.takeWhile isTagChar ≠ []) :
    ∃ next, startTagAt? text i = .some (.some (lowerAll (cs.takeWhile isTagChar), ⟨next,
        (tagRest [] false (cs.dropWhile isTagChar)).attributes,
        (tagRest [] false (cs.dropWhile isTagChar)).closed⟩)) ∧
      At text next (tagRest [] false (cs.dropWhile isTagChar)).rest := by
  have there := at_dropWhile here isTagChar
  obtain ⟨next, read, last⟩ := iterate_attributeTurn (s := ⟨_, [], false⟩) there
  refine ⟨next, ?_, last⟩
  obtain ⟨c, more, name⟩ := List.exists_cons_of_ne_nil some
  have moved : i + 1 + byteLength (cs.takeWhile isTagChar) ≠ i + 1 := by
    have some := Char.utf8Size_pos c
    rw [name, byteLength_cons]
    omega
  simp only [startTagAt?, skip?_at here isAsciiTest_tag, if_neg moved,
    slice?_takeWhile here isTagChar, read, Option.bind_eq_bind, Option.bind_some]
  rfl

/-- A start tag is read from any place on, be it within a character or behind the text. -/
theorem exists_startTagAt? (text : List Char) (i : Nat) :
    ∃ found, startTagAt? text i = some found := by
  cases name : ((bytes text).drop (i + 1)).takeWhile (isTagChar <| Char.ofUInt8 ·) with
  | nil => exact ⟨none, startTagAt?_of_not (by rw [skip?_eq, name]; rfl)⟩
  | cons b more =>
      have pass : isTagChar (Char.ofUInt8 b) :=
        List.mem_takeWhile_imp (p := (isTagChar <| Char.ofUInt8 ·)) (name ▸ List.mem_cons_self)
      have byte : byteAt? (bytes text) (i + 1) = some (Char.ofUInt8 b) := by
        obtain ⟨last, split⟩ := name ▸ List.takeWhile_prefix (isTagChar <| Char.ofUInt8 ·)
        rw [byteAt?, ← List.head?_drop, ← split]
        rfl
      obtain ⟨rest, there⟩ := at_of_byteAt? byte (isAscii_of_isTagChar _ pass)
      have some : (Char.ofUInt8 b :: rest).takeWhile isTagChar ≠ [] := by
        rw [List.takeWhile_cons_of_pos pass]
        exact List.cons_ne_nil _ _
      obtain ⟨next, read, -⟩ := startTagAt?_at there some
      exact ⟨_, read⟩

/-! ## Content -/

theorem utf8Size_asciiLower (c : Char) : (asciiLower c).utf8Size = c.utf8Size := by
  unfold asciiLower
  split_ifs with upper
  · have low : 65 ≤ c.toNat := UInt32.le_iff_toNat_le.mp upper.1
    have high : c.toNat ≤ 90 := UInt32.le_iff_toNat_le.mp upper.2
    have letters : ∀ k < 26, (Char.ofNat (65 + k + 32)).utf8Size = 1 := by decide
    have ascii : isAscii c := decide_eq_true (by omega)
    rw [utf8Size_ascii ascii, show c.toNat = 65 + (c.toNat - 65) by omega]
    exact letters _ (by omega)
  · rfl

/-- The text of a tag ends where its end tag is found in lower case. -/
theorem exists_textBody (tag cs : List Char) :
    ∃ front rest, cs = front ++ rest ∧ textBody tag cs = (front, past '>' rest) ∧
      (findText? ('<' :: '/' :: tag) (lowerAll cs)).getD (byteLength cs) = byteLength front := by
  induction cs with
  | nil => exact ⟨[], [], rfl, rfl, rfl⟩
  | cons c cs ih =>
      have within : ('<' :: '/' :: tag).isPrefixOf (lowerAll ((c :: cs).take (tag.length + 2))) ↔
          '<' :: '/' :: tag <+: lowerAll (c :: cs) := by
        rw [List.isPrefixOf_iff_prefix, lowerAll, List.map_take, List.prefix_take_iff]
        exact and_iff_left (by simp)
      by_cases here : '<' :: '/' :: tag <+: lowerAll (c :: cs)
      · refine ⟨[], c :: cs, rfl, ?_, ?_⟩
        · rw [textBody, if_pos (within.mpr here)]
        · rw [lowerAll, List.map_cons] at here ⊢
          rw [findText?_of_first here]
          rfl
      · obtain ⟨front, rest, rfl, body, place⟩ := ih
        refine ⟨c :: front, rest, rfl, ?_, ?_⟩
        · rw [textBody, if_neg (mt within.mp here), body]
        · rw [lowerAll, List.map_cons] at here ⊢
          rw [findText?_cons_of_missing here, utf8Size_asciiLower, byteLength_cons,
            byteLength_cons, ← place, lowerAll]
          cases findText? ('<' :: '/' :: tag) ((front ++ rest).map asciiLower) <;> rfl

/-- What a start tag begins, and what is left. -/
def content (tag : List Char) (t : TagRest) : Body × List Char :=
  let name := String.ofList tag
  if textTags.contains name && !t.closed then
    let (text, rest) := textBody tag t.rest
    (.text (if rawTags.contains name then text else decode text), rest)
  else if t.closed || voidTags.contains name then (.none, t.rest)
  else (.opened, t.rest)

theorem startTag?_of_nameless (none : cs.takeWhile isTagChar = []) : startTag? cs = .none := by
  rw [startTag?, none]
  rfl

theorem startTag?_of_named {tag : List Char} {t : TagRest} (some : cs.takeWhile isTagChar ≠ [])
    (name : lowerAll (cs.takeWhile isTagChar) = tag)
    (read : tagRest [] false (cs.dropWhile isTagChar) = t) :
    startTag? cs = .some (.start tag t.attributes (content tag t).1, (content tag t).2) := by
  have named : tag.isEmpty = false := by
    rw [← name]
    simpa [lowerAll] using some
  simp only [startTag?, name, read, named, content, Bool.false_eq_true, if_false]
  split_ifs <;> rfl

theorem tagText?_eq (raw : Bool) (cs : List Char) :
    tagText? raw cs = some (if raw then cs else decode cs) := by
  rw [tagText?, decode?_eq]
  cases raw with
  | true => rw [Bool.or_true]; rfl
  | false => cases cs <;> rfl

theorem textBody?_at (here : At text i rest) (tag : List Char) :
    ∃ next, textBody? text tag i = some (if rawTags.contains (String.ofList tag) then
        (textBody tag rest).1 else decode (textBody tag rest).1, next) ∧
      At text next (textBody tag rest).2 := by
  obtain ⟨front, after, rfl, body, place⟩ := exists_textBody tag rest
  obtain ⟨next, found, last⟩ := pastByte?_at (c := '>') here.after rfl
  have stop : ((findText? ('<' :: '/' :: tag) (lowerAll (front ++ after))).map (i + ·)).getD
      (byteLength text) = i + byteLength front := by
    rw [here.byteLength, ← place]
    cases findText? ('<' :: '/' :: tag) (lowerAll (front ++ after)) <;> rfl
  rw [body]
  refine ⟨next, ?_, last⟩
  simp only [textBody?, here.sliceFrom?, stop, here.slice?, tagText?_eq, found,
    Option.bind_eq_bind, Option.bind_some]
  rfl

theorem body?_at {t : TagState} {tag : List Char} (here : At text t.place rest) :
    ∃ next, body? text tag t = some ((content tag ⟨t.attributes, t.closed, rest⟩).1, next) ∧
      At text next (content tag ⟨t.attributes, t.closed, rest⟩).2 := by
  simp only [body?, content]
  by_cases single : textTags.contains (String.ofList tag) && !t.closed
  · obtain ⟨next, found, last⟩ := textBody?_at here tag
    rw [if_pos single, if_pos single, found]
    exact ⟨next, rfl, last⟩
  · rw [if_neg single, if_neg single]
    cases t.closed <;> cases voidTags.contains (String.ofList tag) <;> exact ⟨_, rfl, here⟩

end BrowserScript.Html.Scanner
