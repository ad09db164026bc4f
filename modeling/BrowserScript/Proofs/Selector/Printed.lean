import BrowserScript.Proofs.Keyword.Template
import BrowserScript.Proofs.Selector.Accepted

/-!
Selectors printed and read back. Groups are split with regard to the quotes of values, attribute
tests are not: a test ends at the first closing bracket. So a selector that has such a bracket in a
value is refused, and every other one is read as it is. Main statement: `parse_print`.
-/

namespace BrowserScript.Selector

open XPath (EndsName endsName_cons)

/-! ## Printing -/

def AttributeTest.print (t : AttributeTest) : List Char :=
  '[' :: (t.name.toList ++ t.value.elim [] (fun v => '=' :: '"' :: (v.toList ++ ['"'])) ++ [']'])

/-- What a compound has after its tag. -/
inductive Part
  | id (name : String)
  | className (name : String)
  | test (t : AttributeTest)

def Part.print : Part → List Char
  | .id name => '#' :: name.toList
  | .className name => '.' :: name.toList
  | .test t => t.print

def Compound.parts (c : Compound) : List Part :=
  c.id.toList.map .id ++ (c.classes.map .className ++ c.attributes.map .test)

def Compound.pieces (c : Compound) : List (List Char) :=
  c.tag.toList.map String.toList ++ c.parts.map Part.print

def Compound.print (c : Compound) : List Char := c.pieces.flatten

def Combinator.print : Combinator → List Char
  | .descendant => [' ']
  | .child => [' ', '>', ' ']

def Chain.print : Chain → List Char
  | .one c => c.print
  | .next front k c => front.print ++ (k.print ++ c.print)

def print (s : Selector) : String :=
  String.ofList ([',', ' '].intercalate (s.chains.map Chain.print))

/-! ## Well-formed selectors -/

structure Identifier (name : String) : Prop where
  some : name.toList ≠ []
  letters : ∀ c ∈ name.toList, isNameChar c

/-- A compound that can be printed: it has a part, its names are identifiers, those of tags and
attributes in lower case, and no value has a double quote. -/
structure Compound.Printable (c : Compound) : Prop where
  some : c ≠ {}
  tag : ∀ name ∈ c.tag, Identifier name ∧ Text.asciiLowered name = name
  id : ∀ name ∈ c.id, Identifier name
  classes : ∀ name ∈ c.classes, Identifier name
  attributes : ∀ t ∈ c.attributes,
    (Identifier t.name ∧ Text.asciiLowered t.name = t.name) ∧ ∀ v ∈ t.value, '"' ∉ v.toList

structure Printable (s : Selector) : Prop where
  some : s.chains ≠ []
  compounds : ∀ chain ∈ s.chains, ∀ c ∈ chain.compounds, c.Printable

instance (name : String) : Decidable (Identifier name) :=
  decidable_of_iff (name.toList ≠ [] ∧ name.toList.all isNameChar)
    ⟨fun both => ⟨both.1, List.all_eq_true.mp both.2⟩,
      fun named => ⟨named.some, List.all_eq_true.mpr named.letters⟩⟩

instance (c : Compound) : Decidable c.Printable :=
  decidable_of_iff (c ≠ {} ∧ (∀ name ∈ c.tag, Identifier name ∧ Text.asciiLowered name = name) ∧
      (∀ name ∈ c.id, Identifier name) ∧ (∀ name ∈ c.classes, Identifier name) ∧
      ∀ t ∈ c.attributes, (Identifier t.name ∧ Text.asciiLowered t.name = t.name) ∧
        ∀ v ∈ t.value, '"' ∉ v.toList)
    ⟨fun all => ⟨all.1, all.2.1, all.2.2.1, all.2.2.2.1, all.2.2.2.2⟩,
      fun p => ⟨p.some, p.tag, p.id, p.classes, p.attributes⟩⟩

instance (s : Selector) : Decidable s.Printable :=
  decidable_of_iff (s.chains ≠ [] ∧ ∀ chain ∈ s.chains, ∀ c ∈ chain.compounds, c.Printable)
    ⟨fun both => ⟨both.1, both.2⟩, fun p => ⟨p.some, p.compounds⟩⟩

/-- Whether the closing bracket of the test is not the first one. -/
def AttributeTest.isCut (t : AttributeTest) : Bool := t.value.any (·.toList.contains ']')

def Compound.isCut (c : Compound) : Bool := c.attributes.any AttributeTest.isCut

def Chain.isCut (chain : Chain) : Bool := chain.compounds.any Compound.isCut

def isCut (s : Selector) : Bool := s.chains.any Chain.isCut

/-! ## Attribute tests -/

variable {c : Compound} {cs rest : List Char} {name : String} {t : AttributeTest}

theorem name?_toList (named : Identifier name) : name? name.toList = some name := by
  have good : (!name.toList.isEmpty && name.toList.all isNameChar) = true :=
    Bool.and_eq_true_iff.mpr ⟨by simpa using named.some, List.all_eq_true.mpr named.letters⟩
  rw [name?, if_pos good, String.ofList_toList]

theorem notMem_name {sign : Char} (other : isNameChar sign = false)
    (letters : ∀ c ∈ cs, isNameChar c) : sign ∉ cs :=
  fun mem => Bool.eq_false_iff.mp other (letters sign mem)

theorem endsCompound_name {c : Char} (letter : isNameChar c) : endsCompound c = false := by
  have solid := Bool.eq_false_iff.mpr (XPath.Token.solid_of_isNameChar letter)
  have noSign : (c == '>') = false := by
    rw [beq_eq_false_iff_ne]
    rintro rfl
    cases letter
  rw [endsCompound, solid, noSign]
  rfl

theorem solid_of_endsCompound {c : Char} (inside : endsCompound c = false) : ¬ Text.isBlank c :=
  Bool.eq_false_iff.mp (Bool.or_eq_false_iff.mp inside).1

/-- A text between characters that do not end a compound. -/
structure Firm (cs : List Char) : Prop where
  first : ∃ c, cs.head? = some c ∧ endsCompound c = false
  last : ∃ c, cs.getLast? = some c ∧ endsCompound c = false

theorem Firm.append (firm : Firm cs) (between : List Char) (more : Firm rest) :
    Firm (cs ++ (between ++ rest)) := by
  obtain ⟨c, first, start⟩ := firm.first
  obtain ⟨d, last, stop⟩ := more.last
  refine ⟨⟨c, ?_, start⟩, ⟨d, ?_, stop⟩⟩
  · rw [List.head?_append, first]
    rfl
  · rw [List.getLast?_append, List.getLast?_append, last]
    rfl

theorem firm_sign {c : Char} (inside : endsCompound c = false) : Firm [c] :=
  ⟨⟨c, rfl, inside⟩, ⟨c, rfl, inside⟩⟩

theorem Identifier.firm (named : Identifier name) : Firm name.toList := by
  obtain ⟨some, letters⟩ := named
  exact ⟨⟨_, List.head?_eq_some_head some, endsCompound_name (letters _ (List.head_mem some))⟩,
    ⟨_, List.getLast?_eq_some_getLast some, endsCompound_name (letters _ (List.getLast_mem some))⟩⟩

theorem Firm.dropWhile (firm : Firm cs) (rest : List Char) :
    (cs ++ rest).dropWhile Text.isBlank = cs ++ rest := by
  obtain ⟨c, first, start⟩ := firm.first
  refine Text.dropWhile_of_head ?_ (solid_of_endsCompound start)
  rw [List.head?_append, first]
  rfl

theorem Firm.trim_append (firm : Firm cs) (more : List Char) :
    Text.trim (cs ++ more) = cs ++ Text.trimEnd more := by
  obtain ⟨d, last, stop⟩ := firm.last
  have back : cs.reverse.dropWhile Text.isBlank = cs.reverse :=
    Text.dropWhile_of_head (List.head?_reverse.trans last) (solid_of_endsCompound stop)
  rw [Text.trim, Text.trimStart, firm.dropWhile, Text.trimEnd, Text.trimEnd, List.reverse_append,
    List.dropWhile_append, back]
  split
  · next none =>
      rw [List.isEmpty_iff.mp none, List.reverse_reverse]
      exact (List.append_nil cs).symm
  · rw [List.reverse_append, List.reverse_reverse]

theorem Firm.trim (firm : Firm cs) : Text.trim cs = cs := by
  have trimmed := firm.trim_append []
  rwa [List.append_nil, Text.trimEnd, List.reverse_nil, List.dropWhile_nil, List.reverse_nil,
    List.append_nil] at trimmed

theorem trimEnd_snoc {c : Char} (solid : ¬ Text.isBlank c) (cs : List Char) :
    Text.trimEnd (cs ++ [c]) = cs ++ [c] := by
  rw [Text.trimEnd, List.reverse_append, List.reverse_singleton, List.singleton_append,
    List.dropWhile_cons_of_neg solid, ← List.singleton_append, List.reverse_append,
    List.reverse_singleton, List.reverse_reverse]

theorem mem_of_mem_trimEnd {c : Char} (mem : c ∈ Text.trimEnd cs) : c ∈ cs :=
  List.mem_reverse.mp ((List.dropWhile_sublist _).mem (List.mem_reverse.mp mem))

/-- A name and a value behind an opening quote, which need not be closed. -/
theorem attributeTest?_quoted (named : Identifier name) (lowered : Text.asciiLowered name = name)
    (cs : List Char) : attributeTest? (name.toList ++ '=' :: '"' :: cs) =
      (value? ('"' :: Text.trimEnd (Text.trimEnd cs))).map fun v => ⟨name, some v⟩ := by
  have firm := named.firm
  have quote : Firm ['"'] := firm_sign rfl
  have whole : Text.trim (name.toList ++ '=' :: '"' :: cs) =
      name.toList ++ '=' :: '"' :: Text.trimEnd cs := by
    have trimmed := (firm.append ['='] quote).trim_append cs
    simpa using trimmed
  have cut : Text.splitAt? ['='] (name.toList ++ '=' :: '"' :: Text.trimEnd cs) =
      some (name.toList, '"' :: Text.trimEnd cs) :=
    Text.splitAt?_singleton (notMem_name rfl named.letters) _
  have value : Text.trim ('"' :: Text.trimEnd cs) = '"' :: Text.trimEnd (Text.trimEnd cs) :=
    quote.trim_append _
  simp only [attributeTest?, whole, cut, firm.trim, value, name?_toList named,
    Option.bind_eq_bind, Option.bind_some, lowered, Option.map_eq_bind]
  rfl

theorem attributeTest?_name (named : Identifier name) (lowered : Text.asciiLowered name = name) :
    attributeTest? name.toList = some ⟨name, none⟩ := by
  have firm := named.firm
  have cut : Text.splitAt? ['='] name.toList = none := by
    rw [Text.splitAt?_eq_none_iff, List.singleton_infix_iff]
    exact notMem_name rfl named.letters
  simp only [attributeTest?, firm.trim, cut, name?_toList named, Option.map_some, lowered]

/-! ## Parts -/

/-- What can follow a part: another part, or what can follow a compound. -/
def Ended (rest : List Char) : Prop := ∀ c ∈ rest.head?, endsCompound c

theorem Ended.endsName (ended : Ended rest) : EndsName rest := by
  intro c mem letter
  have ends := ended c mem
  rw [endsCompound, Bool.or_eq_true, beq_iff_eq] at ends
  obtain blank | rfl := ends
  · exact XPath.Token.solid_of_isNameChar letter blank
  · have sign : isNameChar '>' = false := rfl
    exact Bool.false_ne_true (sign.symm.trans letter)

theorem parts_of_ended (ended : Ended rest) (c : Compound) : parts c rest = some (c, rest) := by
  rw [parts.eq_def]
  split
  · rfl
  · cases ended _ rfl
  · cases ended _ rfl
  · cases ended _ rfl
  · exact if_pos (ended _ rfl)

theorem parts_id (named : Identifier name) (ends : EndsName rest) (c : Compound) :
    parts c ('#' :: (name.toList ++ rest)) = parts { c with id := some name } rest := by
  obtain ⟨taken, left⟩ := Text.takeWhile_append_of_stop named.letters ends
  rw [parts.eq_def]
  simp only [taken, left, name?_toList named]

theorem parts_className (named : Identifier name) (ends : EndsName rest) (c : Compound) :
    parts c ('.' :: (name.toList ++ rest)) =
      parts { c with classes := c.classes ++ [name] } rest := by
  obtain ⟨taken, left⟩ := Text.takeWhile_append_of_stop named.letters ends
  rw [parts.eq_def]
  simp only [taken, left, name?_toList named]

/-- A test is what stands before the first closing bracket. -/
theorem parts_bracket (free : ']' ∉ cs) (c : Compound) (rest : List Char) :
    parts c ('[' :: (cs ++ ']' :: rest)) = (attributeTest? cs).bind fun t =>
      parts { c with attributes := c.attributes ++ [t] } rest := by
  have inside : ∀ x ∈ cs, (x != ']') = true := by
    intro x mem
    exact bne_iff_ne.mpr fun same => free (same ▸ mem)
  have stop : ∀ x ∈ (']' :: rest).head?, ¬ (x != ']') = true := by
    intro x mem
    obtain rfl := Option.some.inj mem
    decide
  obtain ⟨taken, left⟩ := Text.takeWhile_append_of_stop inside stop
  rw [parts.eq_def]
  simp only [taken]
  split
  · next found tested =>
      obtain ⟨-, rfl⟩ := List.cons.inj (left.symm.trans found)
      rw [tested, Option.bind_some]
  · next other =>
      rw [Option.eq_none_iff_forall_ne_some.mpr fun t => other _ _ t left, Option.bind_none]

theorem value?_open (free : '"' ∉ cs) : value? ('"' :: cs) = none := by
  have other : ¬ (cs.getLast? == some '"') = true :=
    fun last => free (List.mem_of_getLast? (beq_iff_eq.mp last))
  exact if_neg other

theorem value?_closed (cs : List Char) :
    value? ('"' :: (cs ++ ['"'])) = some (String.ofList cs) := by
  have last : ((cs ++ ['"']).getLast? == some '"') = true :=
    beq_iff_eq.mpr List.getLast?_concat
  exact (if_pos last).trans (by rw [List.dropLast_concat])

/-- The attribute test is refused if the bracket that it is read up to is one of the value. -/
theorem parts_test (named : Identifier t.name) (lowered : Text.asciiLowered t.name = t.name)
    (free : ∀ v ∈ t.value, '"' ∉ v.toList) (c : Compound) (rest : List Char) :
    parts c (t.print ++ rest) =
      if t.isCut then none else parts { c with attributes := c.attributes ++ [t] } rest := by
  obtain ⟨name, value⟩ := t
  have plain : ']' ∉ name.toList := notMem_name rfl named.letters
  cases value with
  | none =>
      have text : (AttributeTest.mk name none).print ++ rest =
          '[' :: (name.toList ++ ']' :: rest) := by simp [AttributeTest.print]
      rw [text, parts_bracket plain, attributeTest?_name named lowered]
      rfl
  | some v =>
      have noQuote : '"' ∉ v.toList := free v rfl
      have text : (AttributeTest.mk name (some v)).print ++ rest =
          '[' :: (name.toList ++ '=' :: '"' :: (v.toList ++ '"' :: ']' :: rest)) := by
        simp [AttributeTest.print]
      by_cases cut : ']' ∈ v.toList
      · obtain ⟨front, back, split, first⟩ := List.eq_append_cons_of_mem cut
        have inside : ']' ∉ name.toList ++ '=' :: '"' :: front := by simp [plain, first]
        have unclosed : '"' ∉ Text.trimEnd (Text.trimEnd front) := by
          intro mem
          rw [split] at noQuote
          exact noQuote (List.mem_append_left _ (mem_of_mem_trimEnd (mem_of_mem_trimEnd mem)))
        have upTo : '[' :: (name.toList ++ '=' :: '"' :: (v.toList ++ '"' :: ']' :: rest)) =
            '[' :: ((name.toList ++ '=' :: '"' :: front) ++
              ']' :: (back ++ '"' :: ']' :: rest)) := by simp [split]
        have isCut : (AttributeTest.mk name (some v)).isCut = true := List.contains_iff_mem.mpr cut
        rw [text, upTo, parts_bracket inside, attributeTest?_quoted named lowered,
          value?_open unclosed, if_pos isCut]
        rfl
      · have inside : ']' ∉ name.toList ++ '=' :: '"' :: (v.toList ++ ['"']) := by
          simp [plain, cut]
        have upTo : '[' :: (name.toList ++ '=' :: '"' :: (v.toList ++ '"' :: ']' :: rest)) =
            '[' :: ((name.toList ++ '=' :: '"' :: (v.toList ++ ['"'])) ++ ']' :: rest) := by simp
        have whole : (AttributeTest.mk name (some v)).isCut = false :=
          Bool.eq_false_iff.mpr fun found => cut (List.contains_iff_mem.mp found)
        rw [text, upTo, parts_bracket inside, attributeTest?_quoted named lowered,
          trimEnd_snoc (by decide), trimEnd_snoc (by decide), value?_closed, whole,
          String.ofList_toList]
        rfl

namespace Part

def onto (c : Compound) : Part → Compound
  | .id name => { c with id := some name }
  | .className name => { c with classes := c.classes ++ [name] }
  | .test t => { c with attributes := c.attributes ++ [t] }

def isCut : Part → Bool
  | .id _ | .className _ => false
  | .test t => t.isCut

def Printable : Part → Prop
  | .id name | .className name => Identifier name
  | .test t => (Identifier t.name ∧ Text.asciiLowered t.name = t.name) ∧
    ∀ v ∈ t.value, '"' ∉ v.toList

end Part

theorem parts_print {p : Part} (printable : p.Printable) (ends : EndsName rest) (c : Compound) :
    parts c (p.print ++ rest) = if p.isCut then none else parts (p.onto c) rest := by
  cases p with
  | id name => exact parts_id printable ends c
  | className name => exact parts_className printable ends c
  | test t =>
      obtain ⟨⟨named, lowered⟩, free⟩ := printable
      exact parts_test named lowered free c rest

theorem endsName_parts (ps : List Part) (ended : Ended rest) :
    EndsName ((ps.map Part.print).flatten ++ rest) := by
  cases ps with
  | nil => exact ended.endsName
  | cons p ps => cases p <;> exact endsName_cons rfl _

theorem parts_each {ps : List Part} (printable : ∀ p ∈ ps, p.Printable) (ended : Ended rest)
    (c : Compound) : parts c ((ps.map Part.print).flatten ++ rest) =
      if ps.any Part.isCut then none else some (ps.foldl Part.onto c, rest) := by
  induction ps generalizing c with
  | nil => exact parts_of_ended ended c
  | cons p ps ih =>
      obtain ⟨first, printable⟩ := List.forall_mem_cons.mp printable
      rw [List.map_cons, List.flatten_cons, List.append_assoc,
        parts_print first (endsName_parts ps ended), ih printable, List.any_cons, List.foldl_cons]
      cases p.isCut <;> rfl

/-! ## Compounds -/

theorem foldl_classNames (names : List String) (c : Compound) :
    (names.map Part.className).foldl Part.onto c = { c with classes := c.classes ++ names } := by
  induction names generalizing c with
  | nil => rw [List.append_nil]; rfl
  | cons name names ih =>
      rw [List.map_cons, List.foldl_cons, ih, Part.onto, List.append_assoc]
      rfl

theorem foldl_tests (ts : List AttributeTest) (c : Compound) :
    (ts.map Part.test).foldl Part.onto c = { c with attributes := c.attributes ++ ts } := by
  induction ts generalizing c with
  | nil => rw [List.append_nil]; rfl
  | cons t ts ih =>
      rw [List.map_cons, List.foldl_cons, ih, Part.onto, List.append_assoc]
      rfl

/-- A compound is its tag and its parts. -/
theorem foldl_parts (c : Compound) : c.parts.foldl Part.onto { tag := c.tag } = c := by
  rw [Compound.parts, List.foldl_append, List.foldl_append, foldl_classNames, foldl_tests]
  obtain ⟨tag, id, classes, attributes⟩ := c
  cases id <;> rfl

theorem any_parts (c : Compound) : c.parts.any Part.isCut = c.isCut := by
  have names (names : List String) : (names.map Part.className).any Part.isCut = false := by
    simp [Part.isCut]
  have id : (c.id.toList.map Part.id).any Part.isCut = false := by simp [Part.isCut]
  rw [Compound.parts, List.any_append, List.any_append, id, names, List.any_map]
  rfl

theorem Compound.Printable.parts (printable : c.Printable) : ∀ p ∈ c.parts, p.Printable := by
  intro p mem
  simp only [Compound.parts, List.mem_append, List.mem_map, Option.mem_toList] at mem
  rcases mem with ⟨name, there, rfl⟩ | ⟨name, there, rfl⟩ | ⟨t, there, rfl⟩
  · exact printable.id name there
  · exact printable.classes name there
  · exact printable.attributes t there

theorem compound?_tag (named : Identifier name) (lowered : Text.asciiLowered name = name)
    (ends : EndsName rest) :
    compound? (name.toList ++ rest) = parts { tag := some name } rest := by
  obtain ⟨some, letters⟩ := named
  obtain ⟨x, xs, spelled⟩ := List.exists_cons_of_ne_nil some
  rw [spelled] at letters
  obtain ⟨letter, letters⟩ := List.forall_mem_cons.mp letters
  obtain ⟨taken, left⟩ := Text.takeWhile_append_of_stop letters ends
  have noStar : ¬ (x == '*') = true := by
    rw [beq_iff_eq]
    rintro rfl
    cases letter
  have whole : Text.asciiLowered (String.ofList (x :: xs)) = name := by
    rw [← spelled, String.ofList_toList, lowered]
  rw [spelled, List.cons_append, compound?, if_neg noStar, if_pos letter, taken, left, whole]

theorem compound?_print (printable : c.Printable) (ended : Ended rest) :
    compound? (c.print ++ rest) = if c.isCut then none else some (c, rest) := by
  have read := parts_each printable.parts ended { tag := c.tag }
  rw [any_parts, foldl_parts] at read
  rw [← read, Compound.print, Compound.pieces]
  cases tagged : c.tag with
  | none =>
      cases all : c.parts with
      | nil =>
          refine absurd ?_ printable.some
          rw [← foldl_parts c, all, tagged]
          rfl
      | cons p ps => cases p <;> rfl
  | some name =>
      obtain ⟨named, lowered⟩ := printable.tag name tagged
      rw [Option.toList_some, List.map_singleton, List.singleton_append, List.flatten_cons,
        List.append_assoc, compound?_tag named lowered (endsName_parts c.parts ended)]

/-! ## Chains -/

theorem Part.Printable.firm {p : Part} (printable : p.Printable) : Firm p.print := by
  cases p with
  | id name => exact (firm_sign rfl).append [] (Identifier.firm printable)
  | className name => exact (firm_sign rfl).append [] (Identifier.firm printable)
  | test t => exact (firm_sign rfl).append _ (firm_sign rfl)

theorem firm_flatten {pieces : List (List Char)} (some : pieces ≠ [])
    (firm : ∀ piece ∈ pieces, Firm piece) : Firm pieces.flatten := by
  induction pieces with
  | nil => exact absurd rfl some
  | cons piece pieces ih =>
      obtain ⟨first, firm⟩ := List.forall_mem_cons.mp firm
      rw [List.flatten_cons]
      cases pieces with
      | nil => rwa [List.flatten_nil, List.append_nil]
      | cons next pieces => exact first.append [] (ih (List.cons_ne_nil _ _) firm)

theorem Compound.Printable.firm (printable : c.Printable) : Firm c.print := by
  refine firm_flatten ?_ ?_
  · intro none
    obtain ⟨noTag, noParts⟩ := List.append_eq_nil_iff.mp none
    refine printable.some ?_
    rw [List.map_eq_nil_iff, Option.toList_eq_nil_iff] at noTag
    rw [← foldl_parts c, List.map_eq_nil_iff.mp noParts, noTag]
    rfl
  · intro piece mem
    rw [Compound.pieces, List.mem_append] at mem
    rcases mem with mem | mem
    · obtain ⟨name, tagged, rfl⟩ := List.mem_map.mp mem
      obtain ⟨named, -⟩ := printable.tag name (Option.mem_toList.mp tagged)
      exact named.firm
    · obtain ⟨p, there, rfl⟩ := List.mem_map.mp mem
      exact (printable.parts p there).firm

theorem firm_chain {chain : Chain} (printable : ∀ c ∈ chain.compounds, c.Printable) :
    Firm chain.print := by
  induction chain with
  | one c => exact (printable c List.mem_cons_self).firm
  | next front k c ih =>
      obtain ⟨before, last⟩ := List.forall_mem_append.mp printable
      exact (ih before).append k.print (last c List.mem_cons_self).firm

theorem chainFrom_blank {b : Char} (blank : Text.isBlank b) (front : Chain) (k : Combinator)
    (cs : List Char) : chainFrom front k (b :: cs) = chainFrom front k cs := by
  rw [chainFrom.eq_def, chainFrom.eq_def front k cs, List.dropWhile_cons_of_pos blank]

theorem chainFrom_child (front : Chain) (cs : List Char) :
    chainFrom front .descendant ('>' :: cs) = chainFrom front .child cs := by
  rw [chainFrom.eq_def]
  rfl

theorem chainFrom_firm (firm : Firm cs) (front : Chain) (k : Combinator) (rest : List Char) :
    chainFrom front k (cs ++ rest) =
      (compound? (cs ++ rest)).bind fun (c, rest) =>
        chainFrom (.next front k c) .descendant rest := by
  obtain ⟨d, first, inside⟩ := firm.first
  have text : (cs ++ rest).head? = some d := by
    rw [List.head?_append, first]
    rfl
  rw [chainFrom.eq_def, firm.dropWhile]
  split
  · next none =>
      rw [none] at text
      cases text
  · next x r all =>
      rw [all] at text
      obtain rfl := Option.some.inj text
      have noSign : ¬ (x == '>') = true :=
        Bool.eq_false_iff.mp (Bool.or_eq_false_iff.mp inside).2
      rw [if_neg noSign, all]
      split
      · next found => rw [found, Option.bind_some]
      · next missing => rw [missing, Option.bind_none]

/-- Behind a compound a combinator is read, and the next compound with it. -/
theorem chainFrom_print (printable : c.Printable) (ended : Ended rest) (front : Chain)
    (k : Combinator) : chainFrom front .descendant (k.print ++ (c.print ++ rest)) =
      if c.isCut then none else chainFrom (.next front k c) .descendant rest := by
  have read : chainFrom front k (c.print ++ rest) =
      if c.isCut then none else chainFrom (.next front k c) .descendant rest := by
    rw [chainFrom_firm printable.firm, compound?_print printable ended]
    cases c.isCut <;> rfl
  rw [← read]
  cases k with
  | descendant => exact chainFrom_blank rfl front .descendant _
  | child =>
      have first := chainFrom_blank (b := ' ') rfl front .descendant
        ('>' :: ' ' :: (c.print ++ rest))
      exact first.trans ((chainFrom_child front _).trans (chainFrom_blank rfl front .child _))

theorem ended_print (k : Combinator) (cs : List Char) : Ended (k.print ++ cs) := by
  intro c mem
  cases k <;>
  · obtain rfl := Option.some.inj mem
    rfl

/-- A chain is read compound by compound, up to the first that is refused. -/
theorem chain?_print {chain : Chain} (printable : ∀ c ∈ chain.compounds, c.Printable)
    (ended : Ended rest) : chain? (chain.print ++ rest) =
      if chain.isCut then none else chainFrom chain .descendant rest := by
  induction chain generalizing rest with
  | one c =>
      have good := printable c List.mem_cons_self
      have one : (Chain.one c).isCut = c.isCut := Bool.or_false _
      rw [Chain.print, chain?, good.firm.dropWhile, compound?_print good ended, one]
      cases c.isCut <;> rfl
  | next front k c ih =>
      obtain ⟨before, last⟩ := List.forall_mem_append.mp printable
      have good := last c List.mem_cons_self
      have both : (Chain.next front k c).isCut = (front.isCut || c.isCut) := by
        simp [Chain.isCut, Chain.compounds]
      rw [Chain.print, List.append_assoc, List.append_assoc, ih before (ended_print k _),
        chainFrom_print good ended, both]
      cases front.isCut <;> rfl

theorem chain?_whole {chain : Chain} (printable : ∀ c ∈ chain.compounds, c.Printable) :
    chain? chain.print = if chain.isCut then none else some chain := by
  have ended : Ended [] := fun c mem => by cases mem
  have read := chain?_print printable ended
  rw [List.append_nil, chainFrom.eq_def] at read
  exact read

/-! ## Groups -/

/-- A text that groups are read over: all of it belongs to the piece that is being read. -/
def Passes (depth : Int) (cs : List Char) : Prop :=
  ∀ piece rest, groupsFrom none depth piece (cs ++ rest) =
    groupsFrom none depth (cs.reverse ++ piece) rest

variable {depth : Int}

theorem passes_nil (depth : Int) : Passes depth [] := fun _ _ => rfl

theorem Passes.append (passes : Passes depth cs) (more : Passes depth rest) :
    Passes depth (cs ++ rest) := by
  intro piece back
  rw [List.append_assoc, passes, more, List.reverse_append, List.append_assoc]

theorem passes_flatten {pieces : List (List Char)} (passes : ∀ cs ∈ pieces, Passes depth cs) :
    Passes depth pieces.flatten := by
  induction pieces with
  | nil => exact passes_nil depth
  | cons cs pieces ih =>
      obtain ⟨first, passes⟩ := List.forall_mem_cons.mp passes
      exact first.append (ih passes)

/-- Characters that groups are not read by. -/
def isPlain (c : Char) : Bool := c != '"' && c != '\'' && c != '[' && c != ']' && c != ','

theorem passes_plain (plain : ∀ c ∈ cs, isPlain c) : Passes depth cs := by
  intro piece rest
  induction cs generalizing piece with
  | nil => rfl
  | cons c cs ih =>
      obtain ⟨first, plain⟩ := List.forall_mem_cons.mp plain
      simp only [isPlain, Bool.and_eq_true, bne_iff_ne] at first
      obtain ⟨⟨⟨⟨double, single⟩, opening⟩, closing⟩, comma⟩ := first
      have step : groupsFrom none depth piece (c :: (cs ++ rest)) =
          groupsFrom none depth (c :: piece) (cs ++ rest) := by
        simp [groupsFrom, double, single, opening, closing, comma]
      rw [List.cons_append, step, ih plain, List.reverse_cons, List.append_assoc]
      rfl

theorem isPlain_name {c : Char} (letter : isNameChar c) : isPlain c := by
  have other {sign : Char} (noName : isNameChar sign = false) : (c != sign) = true := by
    rw [bne_iff_ne]
    rintro rfl
    exact Bool.false_ne_true (noName.symm.trans letter)
  simp only [isPlain, Bool.and_eq_true]
  exact ⟨⟨⟨⟨other rfl, other rfl⟩, other rfl⟩, other rfl⟩, other rfl⟩

theorem Identifier.passes (named : Identifier name) : Passes depth name.toList :=
  passes_plain fun c mem => isPlain_name (named.letters c mem)

/-- In quotes all is passed over, up to the next of their kind. -/
theorem passes_quoted (free : '"' ∉ cs) : Passes depth ('"' :: (cs ++ ['"'])) := by
  have inside (piece rest : List Char) : groupsFrom (some '"') depth piece (cs ++ rest) =
      groupsFrom (some '"') depth (cs.reverse ++ piece) rest := by
    induction cs generalizing piece with
    | nil => rfl
    | cons c cs ih =>
        rw [List.mem_cons, not_or] at free
        have other : ¬ (c == '"') = true := fun same => free.1 (beq_iff_eq.mp same).symm
        rw [List.cons_append, groupsFrom, if_neg other, ih free.2, List.reverse_cons,
          List.append_assoc]
        rfl
  intro piece rest
  have opened : groupsFrom none depth piece ('"' :: (cs ++ ['"'] ++ rest)) =
      groupsFrom (some '"') depth ('"' :: piece) (cs ++ '"' :: rest) := by
    simp [groupsFrom]
  have closed (piece : List Char) : groupsFrom (some '"') depth piece ('"' :: rest) =
      groupsFrom none depth ('"' :: piece) rest := by
    simp [groupsFrom]
  rw [List.cons_append, opened, inside, closed]
  simp

theorem passes_bracketed (passes : Passes (depth + 1) cs) :
    Passes depth ('[' :: (cs ++ [']'])) := by
  intro piece rest
  have opened : groupsFrom none depth piece ('[' :: (cs ++ [']'] ++ rest)) =
      groupsFrom none (depth + 1) ('[' :: piece) (cs ++ ']' :: rest) := by
    simp [groupsFrom]
  have closed (piece : List Char) : groupsFrom none (depth + 1) piece (']' :: rest) =
      groupsFrom none depth (']' :: piece) rest := by
    simp [groupsFrom]
  rw [List.cons_append, opened, passes, closed]
  simp

theorem Part.Printable.passes {p : Part} (printable : p.Printable) : Passes depth p.print := by
  have sign {c : Char} (plain : isPlain c) : Passes depth [c] :=
    passes_plain (List.forall_mem_singleton.mpr plain)
  cases p with
  | id name => exact (sign rfl).append (Identifier.passes printable)
  | className name => exact (sign rfl).append (Identifier.passes printable)
  | test t =>
      obtain ⟨⟨named, -⟩, free⟩ := printable
      refine passes_bracketed (named.passes.append ?_)
      cases valued : t.value with
      | none => exact passes_nil _
      | some v =>
          have equals : Passes (depth + 1) ['='] :=
            passes_plain (List.forall_mem_singleton.mpr rfl)
          exact equals.append (passes_quoted (free v valued))

theorem Compound.Printable.passes (printable : c.Printable) : Passes depth c.print := by
  refine passes_flatten (List.forall_mem_append.mpr ⟨?_, ?_⟩)
  · intro cs mem
    obtain ⟨name, tagged, rfl⟩ := List.mem_map.mp mem
    exact (printable.tag name (Option.mem_toList.mp tagged)).1.passes
  · intro cs mem
    obtain ⟨p, there, rfl⟩ := List.mem_map.mp mem
    exact (printable.parts p there).passes

theorem passes_chain {chain : Chain} (printable : ∀ c ∈ chain.compounds, c.Printable) :
    Passes depth chain.print := by
  induction chain with
  | one c => exact (printable c List.mem_cons_self).passes
  | next front k c ih =>
      obtain ⟨before, last⟩ := List.forall_mem_append.mp printable
      have between : Passes depth k.print := by
        cases k <;> exact passes_plain (by decide)
      exact (ih before).append (between.append (last c List.mem_cons_self).passes)

/-- The chains behind the first are each read with the blank that follows the comma. -/
theorem groupsFrom_print {chains : List Chain}
    (printable : ∀ chain ∈ chains, ∀ c ∈ chain.compounds, c.Printable) (piece : List Char) :
    groupsFrom none 0 piece (chains.flatMap fun chain => ',' :: ' ' :: chain.print) =
      piece.reverse :: chains.map fun chain => ' ' :: chain.print := by
  induction chains generalizing piece with
  | nil => rfl
  | cons chain chains ih =>
      obtain ⟨first, printable⟩ := List.forall_mem_cons.mp printable
      have blank : Passes 0 [' '] := passes_plain (by decide)
      have comma (cs : List Char) : groupsFrom none 0 piece (',' :: cs) =
          piece.reverse :: groupsFrom none 0 [] cs := rfl
      have passed := blank.append (passes_chain first) []
        (chains.flatMap fun chain => ',' :: ' ' :: chain.print)
      rw [List.append_nil, ih printable, List.reverse_reverse] at passed
      exact (comma _).trans (congrArg (piece.reverse :: ·) passed)

theorem mapM_chain? {chains : List Chain} {text : Chain → List Char}
    (printable : ∀ chain ∈ chains, ∀ c ∈ chain.compounds, c.Printable)
    (trimmed : ∀ chain ∈ chains, Text.trim (text chain) = chain.print) :
    ((chains.map text).mapM fun group => chain? (Text.trim group)) =
      if chains.any Chain.isCut then none else some chains := by
  induction chains with
  | nil => rfl
  | cons chain chains ih =>
      obtain ⟨first, printable⟩ := List.forall_mem_cons.mp printable
      obtain ⟨text, trimmed⟩ := List.forall_mem_cons.mp trimmed
      rw [List.map_cons, List.mapM_cons, text, chain?_whole first, ih printable trimmed,
        List.any_cons]
      cases chain.isCut
      · cases chains.any Chain.isCut <;> rfl
      · rfl

theorem toList_print (first : Chain) (more : List Chain) :
    (print ⟨first :: more⟩).toList =
      first.print ++ more.flatMap fun chain => ',' :: ' ' :: chain.print := by
  rw [print, String.toList_ofList]
  exact Text.intercalate_map_cons [',', ' '] Chain.print first more

/-- A printed selector is read as it is, unless a value has a closing bracket. -/
theorem parse_print {s : Selector} (printable : s.Printable) :
    parse s.print = if s.isCut then .error (.invalidSelector s.print) else .ok s := by
  obtain ⟨chains⟩ := s
  obtain ⟨first, more, rfl⟩ := List.exists_cons_of_ne_nil printable.some
  obtain ⟨good, others⟩ := List.forall_mem_cons.mp printable.compounds
  have groups : groupsFrom none 0 [] (print ⟨first :: more⟩).toList =
      first.print :: more.map fun chain => ' ' :: chain.print := by
    rw [toList_print, passes_chain good, groupsFrom_print others, List.append_nil,
      List.reverse_reverse]
  have later : ((more.map fun chain => ' ' :: chain.print).mapM fun group =>
      chain? (Text.trim group)) = if more.any Chain.isCut then none else some more := by
    refine mapM_chain? others fun chain mem => ?_
    have blank : ∀ c ∈ [' '], Text.isBlank c := by decide
    exact (Text.trim_blanks_append blank chain.print).trans (firm_chain (others chain mem)).trim
  have any : isCut ⟨first :: more⟩ = (first.isCut || more.any Chain.isCut) := rfl
  have read : ofChars? (print ⟨first :: more⟩).toList =
      if isCut ⟨first :: more⟩ then none else some ⟨first :: more⟩ := by
    rw [ofChars?, groups, List.mapM_cons, (firm_chain good).trim, chain?_whole good, later, any]
    cases first.isCut
    · cases more.any Chain.isCut <;> rfl
    · rfl
  rw [parse, read]
  cases isCut ⟨first :: more⟩ <;> rfl

theorem parse_print_title :
    parse "li > a.x[title=\"p, 'q'\"]" = .ok ⟨[.next (.one { tag := some "li" }) .child
      { tag := some "a", classes := ["x"], attributes := [⟨"title", some "p, 'q'"⟩] }]⟩ ∧
    parse "[title=\"p]q\"]" = .error (.invalidSelector "[title=\"p]q\"]") :=
  ⟨parse_print (s := ⟨[.next (.one { tag := some "li" }) .child
      { tag := some "a", classes := ["x"], attributes := [⟨"title", some "p, 'q'"⟩] }]⟩)
      (by decide),
    parse_print (s := ⟨[.one { attributes := [⟨"title", some "p]q"⟩] }]⟩) (by decide)⟩

end BrowserScript.Selector
