import BrowserScript.Proofs.Html.Content
import Mathlib.Data.List.Nodup

/-!
Reading printed documents. Each attribute, tag and text is read up to where the next one begins, so
a printed document is read as the parts it was printed from. Main statement: `tokens_print`.
-/

namespace BrowserScript.Html

/-! ## Attributes -/

theorem past_append {cs : List Char} {c : Char} (absent : ∀ x ∈ cs, x ≠ c) (rest : List Char) :
    past c (cs ++ c :: rest) = rest := by
  have passed : ∀ x ∈ cs, (x != c) = true := by simpa using absent
  rw [past, List.dropWhile_append_of_pos passed, List.dropWhile_cons_of_neg (by simp)]
  rfl

theorem value_printed (v rest : List Char) :
    value ('"' :: escape v ++ '"' :: rest) = (v, rest) := by
  have plain : ∀ x ∈ escape v, (x != '"') = true := fun x mem => by
    simpa using (plain_of_mem_escape mem).2
  have taken : (escape v ++ '"' :: rest).takeWhile (· != '"') = escape v := by
    rw [List.takeWhile_append_of_pos plain, List.takeWhile_cons_of_neg (by decide), List.append_nil]
  have left : past '"' (escape v ++ '"' :: rest) = rest :=
    past_append (fun x mem => (plain_of_mem_escape mem).2) rest
  show (decode ((escape v ++ '"' :: rest).takeWhile (· != '"')),
    past '"' (escape v ++ '"' :: rest)) = (v, rest)
  rw [taken, left, decode_escape]

theorem tagRest_cons {attributes : Attributes} {closed : Bool} {cs r : List Char} {c : Char}
    (first : cs.dropWhile Text.isMarkupBlank = c :: r) : tagRest attributes closed cs =
      if c == '>' then ⟨attributes, closed, r⟩
      else if c == '/' then tagRest attributes true r
      else if c == '=' then tagRest attributes closed r
      else
        let v := valueAfter (r.dropWhile (!endsName ·))
        let name := lowerAll (c :: r.takeWhile (!endsName ·))
        tagRest (addAttribute attributes name v.1) false v.2 := by
  rw [tagRest]
  split
  · rename_i none
    cases none.symm.trans first
  · rename_i x xs some
    obtain ⟨rfl, rfl⟩ := List.cons.inj (some.symm.trans first)
    rfl

theorem tagRest_printed {attributes : Attributes} {a : List Char × List Char} (closed : Bool)
    (some : a.1 ≠ []) (letters : ∀ c ∈ a.1, Content.isNameLetter c)
    (new : a.1 ∉ attributes.map (·.1)) (rest : List Char) :
    tagRest attributes closed (printAttribute a ++ rest) =
      tagRest (attributes ++ [a]) false rest := by
  obtain ⟨name, v⟩ := a
  obtain ⟨c, cs, rfl⟩ := List.exists_cons_of_ne_nil some
  have own := not_endsName_of_letter (letters c List.mem_cons_self)
  have others : ∀ x ∈ cs, (!endsName x) = true := fun x mem => by
    simpa using not_endsName_of_letter (letters x (List.mem_cons_of_mem c mem))
  simp only [endsName, Bool.or_eq_false_iff] at own
  obtain ⟨⟨⟨blank, equals⟩, greater⟩, slash⟩ := own
  let tail : List Char := '"' :: escape v ++ '"' :: rest
  have written : printAttribute (c :: cs, v) ++ rest = ' ' :: c :: (cs ++ '=' :: tail) := by
    simp [printAttribute, tail]
  have first : (' ' :: c :: (cs ++ '=' :: tail)).dropWhile Text.isMarkupBlank =
      c :: (cs ++ '=' :: tail) := by
    rw [List.dropWhile_cons_of_pos (by decide), List.dropWhile_cons_of_neg (by simp [blank])]
  have name : (cs ++ '=' :: tail).takeWhile (!endsName ·) = cs := by
    rw [List.takeWhile_append_of_pos others, List.takeWhile_cons_of_neg (by decide),
      List.append_nil]
  have left : (cs ++ '=' :: tail).dropWhile (!endsName ·) = '=' :: tail := by
    rw [List.dropWhile_append_of_pos others, List.dropWhile_cons_of_neg (by decide)]
  have read : valueAfter ('=' :: tail) = (v, rest) := value_printed v rest
  have added : addAttribute attributes (c :: cs) v = attributes ++ [(c :: cs, v)] := by
    refine if_neg fun known => new ?_
    obtain ⟨a, mem, same⟩ := List.any_eq_true.mp known
    exact List.mem_map.mpr ⟨a, mem, eq_of_beq same⟩
  rw [written, tagRest_cons first, if_neg (by simp [greater]), if_neg (by simp [slash]),
    if_neg (by simp [equals]), name, left, read, lowerAll_of_letters letters]
  exact congrArg (fun all => tagRest all false rest) added

theorem tagRest_attributes (before attributes : Attributes)
    (distinct : ((before ++ attributes).map (·.1)).Nodup)
    (names : ∀ a ∈ attributes, a.1 ≠ [] ∧ ∀ c ∈ a.1, Content.isNameLetter c)
    (rest : List Char) :
    tagRest before false (attributes.flatMap printAttribute ++ '>' :: rest) =
      ⟨before ++ attributes, false, rest⟩ := by
  induction attributes generalizing before with
  | nil =>
      have first : ('>' :: rest).dropWhile Text.isMarkupBlank = '>' :: rest :=
        List.dropWhile_cons_of_neg (by decide)
      rw [List.flatMap_nil, List.nil_append, tagRest_cons first, List.append_nil]
      rfl
  | cons a more ih =>
      obtain ⟨some, letters⟩ := names a List.mem_cons_self
      have new : a.1 ∉ before.map (·.1) := by
        rw [List.map_append, List.map_cons, List.nodup_middle] at distinct
        exact fun mem => (List.nodup_cons.mp distinct).1 (List.mem_append_left _ mem)
      rw [List.flatMap_cons, List.append_assoc, tagRest_printed false some letters new, ih]
      · rw [List.append_assoc, List.singleton_append]
      · rwa [List.append_assoc, List.singleton_append]
      · exact fun b mem => names b (List.mem_cons_of_mem a mem)

/-! ## Texts of tags -/

/-- The end tag is not found where it would begin in the text and end in itself. -/
theorem not_prefix_of_free {tag cs : List Char} (letters : ∀ c ∈ tag, Content.isNameLetter c)
    (some : cs ≠ []) (free : ¬ '<' :: '/' :: tag <+: lowerAll cs) (rest : List Char) :
    ¬ '<' :: '/' :: tag <+: lowerAll ((cs ++ '<' :: rest).take (tag.length + 2)) := by
  intro within
  rw [lowerAll, List.map_take, List.map_append, List.map_cons] at within
  have within := within.trans (List.take_prefix _ _)
  obtain before | ⟨more, split⟩ := List.prefix_or_prefix_of_prefix within (List.prefix_append _ _)
  · exact free before
  · -- the bracket of the end tag would stand in the name
    rw [← split, List.prefix_append_right_inj] at within
    obtain ⟨c, cs, rfl⟩ := List.exists_cons_of_ne_nil some
    have inside : more <:+ '/' :: tag := ⟨cs.map Text.asciiLower, (List.cons.inj split).2⟩
    cases more with
    | nil =>
        rw [List.append_nil] at split
        exact free (split ▸ List.prefix_rfl)
    | cons x more =>
        obtain ⟨rfl, -⟩ := List.cons_prefix_cons.mp within
        have mem := inside.subset List.mem_cons_self
        obtain eq | mem := List.mem_cons.mp mem
        · exact absurd eq (by decide)
        · exact absurd (letters _ mem) (by decide)

/-- The text of a tag is read up to the end tag, which it does not contain. -/
theorem textBody_printed {tag cs : List Char} (letters : ∀ c ∈ tag, Content.isNameLetter c)
    (free : ¬ '<' :: '/' :: tag <:+: lowerAll cs) (rest : List Char) :
    textBody tag (cs ++ (stopTag tag ++ rest)) = (cs, rest) := by
  have stop : stopTag tag ++ rest = '<' :: '/' :: tag ++ '>' :: rest := by simp [stopTag]
  induction cs with
  | nil =>
      have lower : lowerAll ('<' :: '/' :: tag) = '<' :: '/' :: tag := by
        rw [lowerAll, List.map_cons, List.map_cons]
        exact congrArg ('<' :: '/' :: ·) (lowerAll_of_letters letters)
      have plain : ∀ c ∈ '<' :: '/' :: tag, c ≠ '>' := by
        have other : ∀ c ∈ tag, c ≠ '>' := by
          rintro c mem rfl
          exact absurd (letters _ mem) (by decide)
        simpa using other
      have taken : ('<' :: '/' :: tag ++ '>' :: rest).take (tag.length + 2) = '<' :: '/' :: tag :=
        List.take_left' rfl
      have found : ('<' :: '/' :: tag).isPrefixOf
          (lowerAll (('<' :: '/' :: tag ++ '>' :: rest).take (tag.length + 2))) := by
        rw [taken, lower]
        simp
      rw [List.nil_append, stop]
      exact (if_pos found).trans (congrArg ([], ·) (past_append plain rest))
  | cons c cs ih =>
      have later : ¬ '<' :: '/' :: tag <:+: lowerAll cs := fun within =>
        free (within.trans (List.suffix_cons _ _).isInfix)
      have here : ¬ ('<' :: '/' :: tag).isPrefixOf
          (lowerAll ((c :: (cs ++ (stopTag tag ++ rest))).take (tag.length + 2))) := by
        rw [List.isPrefixOf_iff_prefix, stop]
        have start : ¬ '<' :: '/' :: tag <+: lowerAll (c :: cs) := fun within =>
          free within.isInfix
        exact not_prefix_of_free letters (List.cons_ne_nil c cs) start _
      rw [List.cons_append, textBody, if_neg here, ih later]

/-! ## Tags -/

theorem isTextTag_of_raw {tag : List Char} (raw : isRawTag tag) : isTextTag tag := by
  have all : ∀ t ∈ rawTags, t ∈ textTags := by decide
  exact List.contains_iff_mem.mpr (all _ (List.contains_iff_mem.mp raw))

theorem not_isTextTag_of_void {tag : List Char} (void : isVoidTag tag) : ¬ isTextTag tag := by
  have none : ∀ t ∈ voidTags, t ∉ textTags := by decide
  exact fun single => none _ (List.contains_iff_mem.mp void) (List.contains_iff_mem.mp single)

/-- After the attributes or the name a tag ends. -/
theorem exists_tagEnd (attributes : Attributes) (rest : List Char) :
    ∃ c r, attributes.flatMap printAttribute ++ '>' :: rest = c :: r ∧ isTagChar c = false := by
  cases attributes with
  | nil => exact ⟨'>', rest, rfl, by decide⟩
  | cons a more => exact ⟨' ', _, rfl, by decide⟩

theorem startTag?_printed {tag : List Char} {attributes : Attributes} {inside : Content}
    (fits : inside.TagFits tag attributes) (rest : List Char) :
    startTag? (tag ++ (attributes.flatMap printAttribute ++ '>' :: rest)) =
      if isTextTag tag then
        some (.start tag attributes (.text (if isRawTag tag then (textBody tag rest).1
          else decode (textBody tag rest).1)), (textBody tag rest).2)
      else if isVoidTag tag then some (.start tag attributes .none, rest)
      else some (.start tag attributes .opened, rest) := by
  obtain ⟨c, r, eq, stop⟩ := exists_tagEnd attributes rest
  have letters : ∀ c ∈ tag, isTagChar c := fun c mem => isTagChar_of_letter (fits.letters c mem)
  have name : (tag ++ (attributes.flatMap printAttribute ++ '>' :: rest)).takeWhile isTagChar =
      tag := by
    rw [eq, List.takeWhile_append_of_pos letters, List.takeWhile_cons_of_neg (by simp [stop]),
      List.append_nil]
  have left : (tag ++ (attributes.flatMap printAttribute ++ '>' :: rest)).dropWhile isTagChar =
      attributes.flatMap printAttribute ++ '>' :: rest := by
    rw [List.dropWhile_append_of_pos letters, eq, List.dropWhile_cons_of_neg (by simp [stop])]
  have lower : lowerAll tag = tag := lowerAll_of_tagLetters fits.letters
  have read := tagRest_attributes [] attributes fits.distinct fits.names rest
  have some : tag.isEmpty = false := by simpa using fits.named
  rw [startTag?, name, lower, left, read]
  simp only [some, isTextTag, isVoidTag, isRawTag, Bool.not_false, Bool.and_true, Bool.false_or,
    List.nil_append, Bool.false_eq_true, if_false]
  rfl

/-- What starts with a tag, or nothing: the text before it ends there. -/
def EndsText (cs : List Char) : Prop :=
  ∀ held, tokensFrom held cs = heldText held ++ tokensFrom [] cs

theorem endsText_nil : EndsText [] := by
  intro held
  rw [tokensFrom, tokensFrom]
  exact (List.append_nil _).symm

theorem tokensFrom_start {c : Char} {cs rest : List Char} {t : Token} (letter : isTagChar c)
    (found : startTag? (c :: cs) = some (t, rest)) (held : List Char) :
    tokensFrom held ('<' :: c :: cs) = heldText held ++ t :: tokensFrom [] rest := by
  have apart (x : Char) (other : isTagChar x = false) : c ≠ x := by
    rintro rfl
    cases letter.symm.trans other
  rw [tokensFrom, if_neg (by decide)]
  · congr 1
    split
    · rename_i known
      obtain ⟨rfl, rfl⟩ := Prod.mk.inj (Option.some.inj (found.symm.trans known))
      rfl
    · rename_i none
      cases found.symm.trans none
  · exact fun _ eq => apart '!' (by decide) (List.cons.inj eq).1
  · exact fun _ eq => apart '!' (by decide) (List.cons.inj eq).1
  · exact fun _ eq => apart '?' (by decide) (List.cons.inj eq).1
  · exact fun _ eq => apart '/' (by decide) (List.cons.inj eq).1

theorem tokensFrom_stopTag {tag : List Char} (letters : ∀ c ∈ tag, Content.isTagLetter c)
    (held rest : List Char) :
    tokensFrom held (stopTag tag ++ rest) = heldText held ++ .stop tag :: tokensFrom [] rest := by
  have plain : ∀ c ∈ tag, c ≠ '>' := by
    rintro c mem rfl
    exact absurd (letters _ mem) (by decide)
  have name : (tag ++ '>' :: rest).takeWhile (· != '>') = tag := by
    rw [List.takeWhile_append_of_pos (by simpa using plain),
      List.takeWhile_cons_of_neg (by decide), List.append_nil]
  have lower : lowerAll tag = tag := lowerAll_of_tagLetters letters
  have left : past '>' (tag ++ '>' :: rest) = rest := past_append plain rest
  have stop : stopTag tag ++ rest = '<' :: '/' :: (tag ++ '>' :: rest) := by simp [stopTag]
  rw [stop, tokensFrom, if_neg (by decide), name, trim_of_letters letters, lower, left]

theorem endsText_stopTag {tag : List Char} (letters : ∀ c ∈ tag, Content.isTagLetter c)
    (rest : List Char) : EndsText (stopTag tag ++ rest) := by
  intro held
  rw [tokensFrom_stopTag letters, tokensFrom_stopTag letters]
  rfl

theorem tokensFrom_cons {c : Char} (other : c ≠ '<') (held cs : List Char) :
    tokensFrom held (c :: cs) = tokensFrom (c :: held) cs := by
  rw [tokensFrom.eq_def]
  exact if_pos (by simpa using other)

theorem tokensFrom_plain {cs : List Char} (plain : ∀ c ∈ cs, c ≠ '<') (held rest : List Char) :
    tokensFrom held (cs ++ rest) = tokensFrom (cs.reverse ++ held) rest := by
  induction cs generalizing held with
  | nil => rfl
  | cons c cs ih =>
      rw [List.cons_append, tokensFrom_cons (plain c List.mem_cons_self),
        ih fun x mem => plain x (List.mem_cons_of_mem c mem), List.reverse_cons, List.append_assoc]
      rfl

theorem tokensFrom_text {cs : List Char} (some : cs ≠ []) {rest : List Char}
    (ends : EndsText rest) :
    tokensFrom [] (escape cs ++ rest) = .text cs :: tokensFrom [] rest := by
  have plain : ∀ c ∈ escape cs, c ≠ '<' := fun c mem => (plain_of_mem_escape mem).1
  have held : heldText (escape cs).reverse = [.text cs] := by
    rw [heldText, List.isEmpty_reverse, List.reverse_reverse, decode_escape]
    exact if_neg (by simpa using escape_ne_nil some)
  rw [tokensFrom_plain plain, List.append_nil, ends, held]
  rfl

namespace Content

theorem startTag_eq (tag : List Char) (attributes : Attributes) (rest : List Char) :
    startTag tag attributes ++ rest =
      '<' :: (tag ++ (attributes.flatMap printAttribute ++ '>' :: rest)) := by
  simp [startTag]

theorem tokensFrom_startTag {tag : List Char} {attributes : Attributes} {inside : Content}
    (fits : inside.TagFits tag attributes) {rest left : List Char} {t : Token}
    (found : startTag? (tag ++ (attributes.flatMap printAttribute ++ '>' :: rest)) =
      some (t, left)) (held : List Char) :
    tokensFrom held (startTag tag attributes ++ rest) =
      heldText held ++ t :: tokensFrom [] left := by
  obtain ⟨c, cs, rfl⟩ := List.exists_cons_of_ne_nil fits.named
  have letter := isTagChar_of_letter (fits.letters c List.mem_cons_self)
  rw [startTag_eq]
  exact tokensFrom_start letter found held

/-- The part that a start tag and what it encloses are read as, if no parts are enclosed. -/
theorem startTag?_void {tag : List Char} {attributes : Attributes} {inside : Content}
    (fits : inside.TagFits tag attributes) (void : isVoidTag tag) (rest : List Char) :
    startTag? (tag ++ (attributes.flatMap printAttribute ++ '>' :: rest)) =
      some (.start tag attributes .none, rest) := by
  rw [startTag?_printed fits, if_neg (not_isTextTag_of_void void), if_pos void]

theorem startTag?_single {tag : List Char} {attributes : Attributes} {inside : Content}
    (fits : inside.TagFits tag attributes) (single : isTextTag tag) (rest : List Char) :
    startTag? (tag ++ (attributes.flatMap printAttribute ++
        '>' :: (inside.print (isRawTag tag) ++ (stopTag tag ++ rest)))) =
      some (.start tag attributes (.text inside.onlyText), rest) := by
  have letters : ∀ c ∈ tag, isNameLetter c := fun c mem =>
    isNameLetter_of_letter (fits.letters c mem)
  have written : inside.print (isRawTag tag) =
      if isRawTag tag then inside.onlyText else escape inside.onlyText := by
    obtain rfl | ⟨cs, rfl⟩ := fits.single single
    · exact (ite_self []).symm
    · exact List.append_nil _
  have free : ¬ '<' :: '/' :: tag <:+: lowerAll (inside.print (isRawTag tag)) := by
    rw [written]
    split_ifs with raw
    · exact fits.raw raw
    · exact fun within => bracket_notMem_escape _ (within.subset List.mem_cons_self)
  rw [startTag?_printed fits, if_pos single, textBody_printed letters free, written]
  split_ifs
  · rfl
  · rw [decode_escape]

theorem endsText_startTag {tag : List Char} {attributes : Attributes} {inside : Content}
    (fits : inside.TagFits tag attributes) (rest : List Char) :
    EndsText (startTag tag attributes ++ rest) := by
  have found : ∃ t left, startTag? (tag ++ (attributes.flatMap printAttribute ++ '>' :: rest)) =
      some (t, left) := by
    rw [startTag?_printed fits]
    split_ifs <;> exact ⟨_, _, rfl⟩
  obtain ⟨t, left, found⟩ := found
  intro held
  rw [tokensFrom_startTag fits found, tokensFrom_startTag fits found]
  rfl

theorem startTag?_opened {tag : List Char} {attributes : Attributes} {inside : Content}
    (fits : inside.TagFits tag attributes) (notSingle : ¬ isTextTag tag) (notVoid : ¬ isVoidTag tag)
    (rest : List Char) :
    startTag? (tag ++ (attributes.flatMap printAttribute ++ '>' :: rest)) =
      some (.start tag attributes .opened, rest) := by
  rw [startTag?_printed fits, if_neg notSingle, if_neg notVoid]

/-- What is no text and what follows it end the text before. -/
theorem endsText_print {content : Content} (good : content.WellFormed) {rest : List Char}
    (other : content.startsWithText = false) (ends : EndsText rest) (raw : Bool) :
    EndsText (content.print raw ++ rest) := by
  cases content with
  | empty => exact ends
  | text => cases other
  | element tag attributes inside after =>
      obtain ⟨fits, -, -⟩ := good
      rw [print, List.append_assoc, List.append_assoc]
      exact endsText_startTag fits _

/-- The written form of a document is read as the parts of the document. -/
theorem tokensFrom_print {content : Content} (good : content.WellFormed) {rest : List Char}
    (ends : EndsText rest) :
    tokensFrom [] (content.print false ++ rest) = content.tokens ++ tokensFrom [] rest := by
  induction content generalizing rest with
  | empty => rfl
  | text cs after ih =>
      obtain ⟨some, other, good⟩ := good
      rw [print, if_neg (by decide), List.append_assoc,
        tokensFrom_text some (endsText_print good other ends false), ih good ends]
      rfl
  | element tag attributes inside after ihInside ih =>
      obtain ⟨fits, inner, good⟩ := good
      rw [print, tokens]
      by_cases void : isVoidTag tag
      · rw [if_pos void, if_pos void, List.append_nil, List.append_assoc,
          tokensFrom_startTag fits (startTag?_void fits void _), ih good ends]
        rfl
      · rw [if_neg void, if_neg void, List.append_assoc, List.append_assoc, List.append_assoc]
        by_cases single : isTextTag tag
        · rw [if_pos single, tokensFrom_startTag fits (startTag?_single fits single _),
            ih good ends]
          rfl
        · have cooked : isRawTag tag = false :=
            Bool.eq_false_iff.mpr fun raw => single (isTextTag_of_raw raw)
          rw [if_neg single, cooked, tokensFrom_startTag fits (startTag?_opened fits single void _),
            ihInside inner (endsText_stopTag fits.letters _), tokensFrom_stopTag fits.letters,
            ih good ends]
          simp [heldText]

theorem tokens_print {content : Content} (good : content.WellFormed) :
    Html.tokens (content.print false) = content.tokens := by
  have read := tokensFrom_print good endsText_nil
  have last : tokensFrom [] [] = [] := by rw [tokensFrom]; rfl
  rwa [last, List.append_nil, List.append_nil] at read

end Content

end BrowserScript.Html
