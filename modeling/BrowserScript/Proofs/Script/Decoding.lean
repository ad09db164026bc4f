import BrowserScript.Proofs.Script.VerifyLine

/-!
What a verify command is decoded into. A statement that is understood compares texts of an element
or of the page, or names a state of an element; its operator fits its subject. So its command is
decoded into a verification of the same subject, operator, text and element. There is one exception:
the words of a statement are read with `ſ` for `s`, but no state is spelled so.
-/

namespace BrowserScript.Verification

def operator : Verification → Operator
  | .text operator .. | .attribute _ operator .. | .page _ operator _ => operator
  | .state .. => .is

def expected : Verification → String
  | .text _ expected _ | .attribute _ _ expected _ | .page _ _ expected => expected
  | .state s _ => s.word

end BrowserScript.Verification

namespace BrowserScript.Script

namespace VerifyStatement

open Reading

variable {f : Family} {s : Subject} {cs rest : List Char} {said : Option (Operator × String)}
  {v w : VerifyStatement} {op : Operator}

/-! ## Statements that are understood -/

/-- What statements can be understood as. -/
inductive Understood : VerifyStatement → Prop
  | ofElement {s : Subject} {op : Operator} {e : String} {locator target : Option String}
      (subject : s ∈ [.text, .value, .placeholder]) (compares : op ≠ .is) :
      Understood ⟨s, op, e, locator, target⟩
  | ofState {state : ElementState} {st : List Char} {e : String} {locator target : Option String}
      (spelled : Spelled state.word st) (meant : e = Text.lowered (String.ofList st)) :
      Understood ⟨.state, .is, e, locator, target⟩
  | ofPage {s : Subject} {op : Operator} {e : String} (subject : s ∈ [.title, .url])
      (compares : op ≠ .is) : Understood ⟨s, op, e, none, none⟩

/-- No comparison is written as short as the word `is`. -/
theorem ne_is_of_phrased {op' : Operator} {o : List Char} (phrased : Phrased op' o)
    (parsed : parseOperator? o = some op) : op ≠ .is := by
  rintro rfl
  have found := List.find?_some parsed
  have short := congrArg String.length (eq_of_beq found)
  have long : ∀ op ∈ comparisons, ∀ w ∈ operatorWords op, 2 < w.length := by decide
  have words := phrased.words
  rw [String.toList_ofList] at short
  cases split : Text.words o with
  | nil =>
      rw [split] at words
      have none : ∀ op ∈ comparisons, operatorWords op ≠ [] := by decide
      exact none op' phrased.mem words.symm
  | cons w ws =>
      rw [split] at words short
      have first : 2 < w.length := by
        have := long op' phrased.mem (w.map plainLetter) (words ▸ List.mem_cons_self ..)
        rwa [List.length_map] at this
      have whole : w.length ≤ ((w :: ws).intersperse ['_']).flatten.length := by
        cases ws <;> simp
      have two : Operator.is.word.length = 2 := by decide
      simp only [Text.asciiLowered, String.toList_ofList, String.length_ofList, List.length_map,
        two] at short
      omega

theorem understood_of_clause {e : String} (mem : s ∈ f.subjects)
    (read : (some (op, e), rest) ∈ f.clause cs) {locator target : Option String}
    (plain : f = .page → locator = none ∧ target = none) :
    Understood ⟨s, op, e, locator, target⟩ := by
  by_cases states : f = .state
  · subst states
    obtain ⟨_, _, _, st, state, -, -, -, -, spelled, meant⟩ := stating_split read
    obtain rfl := List.mem_singleton.mp mem
    obtain ⟨rfl, lowered⟩ := Prod.mk.inj (Option.some.inj meant)
    exact .ofState spelled lowered
  · obtain ⟨_, o, _, _, _, op', -, -, phrased, -, -, meant⟩ := comparing_split states read
    obtain ⟨op₁, parsed, same⟩ := Option.map_eq_some_iff.mp meant.symm
    obtain ⟨rfl, rfl⟩ := Prod.mk.inj same
    have compares := ne_is_of_phrased phrased parsed
    cases f with
    | state => exact absurd rfl states
    | page =>
        obtain ⟨rfl, rfl⟩ := plain rfl
        exact .ofPage mem compares
    | text => exact .ofElement (List.mem_cons.mpr (.inl (List.mem_singleton.mp mem))) compares
    | value => exact .ofElement (List.mem_cons_of_mem _ mem) compares

theorem understood_of_statement (read : (some v, rest) ∈ f.statement cs) :
    Understood v ∧ (f ≠ .page → ∀ locator, Understood { v with locator }) := by
  obtain ⟨s, _, heading, read⟩ := mem_bind.mp read
  obtain ⟨target, _, aim, read⟩ := mem_bind.mp read
  obtain ⟨said, _, clause, read⟩ := mem_bind.mp read
  obtain ⟨whole, rfl⟩ := mem_pure.mp read
  obtain ⟨⟨op, e⟩, rfl, rfl⟩ := Option.map_eq_some_iff.mp whole.symm
  have mem := (mem_heading heading).2
  refine ⟨understood_of_clause mem clause fun page => ⟨rfl, ?_⟩, fun aims locator =>
    understood_of_clause mem clause fun page => absurd page aims⟩
  subst page
  obtain ⟨rfl, -⟩ := mem_pure.mp aim
  rfl

theorem understood_of_reading (read : (some v, rest) ∈ f.reading cs) : Understood v := by
  by_cases page : f = .page
  · subst page
    exact (understood_of_statement read).1
  · rw [reading_eq page] at read
    obtain ⟨w, _, statement, read⟩ := mem_bind.mp read
    obtain ⟨_, _, -, read⟩ := mem_bind.mp read
    obtain ⟨locator, _, -, read⟩ := mem_bind.mp read
    obtain ⟨whole, -⟩ := mem_pure.mp read
    obtain ⟨w, rfl, rfl⟩ := Option.map_eq_some_iff.mp whole.symm
    exact (understood_of_statement statement).2 page _

theorem understood_of_short (read : (some v, rest) ∈ shortFamily cs) : Understood v := by
  obtain ⟨_, _, -, read⟩ := mem_bind.mp read
  obtain ⟨_, _, -, read⟩ := mem_bind.mp read
  obtain ⟨e, _, -, read⟩ := mem_bind.mp read
  obtain ⟨_, _, -, read⟩ := mem_bind.mp read
  obtain ⟨locator, _, -, read⟩ := mem_bind.mp read
  obtain ⟨whole, -⟩ := mem_pure.mp read
  obtain rfl := Option.some.inj whole
  exact .ofElement (by decide) (by decide)

theorem understood_of_parse? {src : String} (parsed : parse? src = some v) : Understood v := by
  have found : (families.findSome? fun family => family.find? src.toList) = some (some v) := by
    simpa [parse?, Option.join_eq_some_iff] using parsed
  obtain ⟨family, mem, found⟩ := List.exists_of_findSome?_eq_some found
  obtain ⟨cs, rest, read⟩ := mem_of_find? found
  rw [families_eq] at mem
  simp only [List.mem_cons, List.not_mem_nil, or_false] at mem
  rcases mem with rfl | rfl | rfl | rfl | rfl
  · exact understood_of_reading read
  · exact understood_of_reading read
  · exact understood_of_reading read
  · exact understood_of_reading read
  · exact understood_of_short read

/-! ## Words of states -/

/-- The letter that a letter is lowered to: a long `s` stays as it is. -/
def lowLetter (c : Char) : Char := if c = 'ſ' then c else plainLetter c

theorem lowerChar_of_letter {c : Char} (plain : 'a' ≤ plainLetter c ∧ plainLetter c ≤ 'z') :
    c ≠ 'Σ' ∧ Text.lowerChar c = [lowLetter c] := by
  refine ⟨?_, ?_⟩
  · rintro rfl
    exact absurd plain (by decide)
  · -- Only two letters beyond ASCII are read as small letters.
    by_cases long : c = 'ſ'
    · subst long
      decide +kernel
    · by_cases kelvin : c = '\u212a'
      · subst kelvin
        decide +kernel
      · rw [plainLetter, if_neg long, if_neg kelvin] at plain
        have near := toNat_of_asciiLower plain
        rw [Text.lowerChar_of_ascii (by omega), lowLetter, if_neg long, plainLetter, if_neg long,
          if_neg kelvin]

theorem lowered_of_spelled {word : String} {a : List Char} (plain : Plain word)
    (spelled : Spelled word a) :
    Text.lowered (String.ofList a) = String.ofList (a.map lowLetter) := by
  have single : ∀ c ∈ a, c ≠ 'Σ' ∧ Text.lowerChar c = [lowLetter c] := fun c there =>
    lowerChar_of_letter (plain _ (spelled ▸ List.mem_map_of_mem there))
  rw [Text.lowered, String.toList_ofList, Text.lowerFrom_of_single single]

/-- A word without a long `s` is spelled as it should be once it is lowered. -/
theorem eq_word_of_spelled {state : ElementState} {st : List Char} {e : String}
    (spelled : Spelled state.word st) (meant : e = Text.lowered (String.ofList st))
    (short : 'ſ' ∉ e.toList) : e = state.word := by
  rw [lowered_of_spelled (plain_word state) spelled] at meant
  rw [meant, String.toList_ofList] at short
  have same : st.map lowLetter = st.map plainLetter := by
    refine List.map_congr_left fun c there => if_neg ?_
    rintro rfl
    exact short (List.mem_map.mpr ⟨'ſ', there, rfl⟩)
  rw [meant, same, spelled, String.ofList_toList]

theorem parse?_word (state : ElementState) : ElementState.parse? state.word = some state := by
  cases state <;> decide

/-- No state is spelled with a long `s`. -/
theorem parse?_of_long {e : String} (long : 'ſ' ∈ e.toList) : ElementState.parse? e = none := by
  refine List.find?_eq_none.mpr fun state _ same => ?_
  have plain : 'ſ' ∉ state.word.toList := by cases state <;> decide
  rw [eq_of_beq same] at plain
  refine plain ?_
  rw [Text.asciiLowered, Text.trimmed, String.toList_ofList, String.toList_ofList]
  exact List.mem_map.mpr ⟨'ſ', Text.mem_trim_of_solid long (by decide), by decide⟩

end VerifyStatement

/-! ## Verifications -/

/-- The verification is of what the statement says, in the given element. -/
structure Asks (v : VerifyStatement) (element : Option String) (w : Verification) : Prop where
  subject : w.subject = v.subject
  operator : w.operator = v.operator
  expected : w.expected = v.expected
  locator : w.locator = element

/-- The statement names a state that is spelled with a long `s`. -/
def Misspelled (v : VerifyStatement) : Prop := v.subject = .state ∧ 'ſ' ∈ v.expected.toList

/-- A command with the fields of a statement. -/
structure States (v : VerifyStatement) (c : Command) : Prop where
  type : c.verifyType = some v.subject
  operator : c.verifyOperator = some v.operator
  expected : c.verifyExpected = some v.expected

variable {v : VerifyStatement} {c : Command} {element : Option String}

theorem comparison_of_ne {op : Operator} (compares : op ≠ .is) :
    Command.comparison op = .ok op := by
  cases op with
  | is => exact absurd rfl compares
  | equals | contains | startsWith | endsWith => rfl

section Equations

variable {s : Subject} {op : Operator} {e : String}

theorem verification_text (type : c.verifyType = some .text)
    (operator : c.verifyOperator = some op) (expected : c.verifyExpected = some e)
    (compares : op ≠ .is) :
    c.verification = .ok (.text op e (c.verifyLocator <|> c.locator)) := by
  simp [Command.verification, type, operator, expected, comparison_of_ne compares, Command.orError]
  rfl

theorem verification_attribute (subject : s ∈ [.value, .placeholder])
    (type : c.verifyType = some s) (operator : c.verifyOperator = some op)
    (expected : c.verifyExpected = some e) (compares : op ≠ .is) :
    c.verification = .ok (.attribute s op e (c.verifyLocator <|> c.locator)) := by
  simp only [List.mem_cons, List.not_mem_nil, or_false] at subject
  rcases subject with rfl | rfl
  all_goals
    simp [Command.verification, type, operator, expected, comparison_of_ne compares,
      Command.orError]
    rfl

theorem verification_state (type : c.verifyType = some .state)
    (expected : c.verifyExpected = some e) :
    c.verification = (Command.orError (.invalidOperand "verify" e) (ElementState.parse? e)).map
      fun s => .state s (c.verifyLocator <|> c.locator) := by
  have given : Command.orError (.missingValue "verify") (some e <|> c.value) = .ok e := rfl
  simp only [Command.verification, type, expected, Option.getD_some, given, Except.bind, bind]
  cases ElementState.parse? e <;> rfl

theorem verification_page (subject : s ∈ [.title, .url]) (type : c.verifyType = some s)
    (operator : c.verifyOperator = some op) (expected : c.verifyExpected = some e)
    (compares : op ≠ .is) (unlocated : (c.verifyLocator <|> c.locator) = none) :
    ∃ t, c.verification = .ok (.page t op e) ∧ (Verification.page t op e).subject = s := by
  simp only [List.mem_cons, List.not_mem_nil, or_false] at subject
  rcases subject with rfl | rfl
  · refine ⟨.title, ?_, rfl⟩
    simp [Command.verification, type, operator, expected, comparison_of_ne compares, unlocated,
      Command.orError]
    rfl
  · refine ⟨.url, ?_, rfl⟩
    simp [Command.verification, type, operator, expected, comparison_of_ne compares,
      Command.orError]
    rfl

end Equations

/-- A statement that is understood is decoded into what it asks for, unless its state is
misspelled. -/
theorem verification_of_understood (understood : v.Understood) (states : States v c)
    (located : (c.verifyLocator <|> c.locator) = element)
    (plain : v.locator = none → element = none) :
    (Misspelled v → c.verification = .error (.invalidOperand "verify" v.expected)) ∧
      (¬ Misspelled v → ∃ w, c.verification = .ok w ∧ Asks v element w) := by
  obtain ⟨type, operator, expected⟩ := states
  subst located
  cases understood with
  | ofElement subject compares =>
      rename_i s op e locator target
      refine ⟨fun bad => ?_, fun _ => ?_⟩
      · obtain ⟨rfl, -⟩ := bad
        exact absurd subject (by decide)
      · rcases List.mem_cons.mp subject with rfl | subject
        · exact ⟨_, verification_text type operator expected compares, rfl, rfl, rfl, rfl⟩
        · exact ⟨_, verification_attribute subject type operator expected compares, rfl, rfl, rfl,
            rfl⟩
  | ofState spelled meant =>
      rename_i state st e locator target
      rw [verification_state type expected]
      refine ⟨fun bad => ?_, fun good => ?_⟩
      · rw [VerifyStatement.parse?_of_long bad.2]
        rfl
      · obtain rfl := VerifyStatement.eq_word_of_spelled spelled meant fun long => good ⟨rfl, long⟩
        rw [VerifyStatement.parse?_word]
        exact ⟨_, rfl, rfl, rfl, rfl, rfl⟩
  | ofPage subject compares =>
      refine ⟨fun bad => ?_, fun _ => ?_⟩
      · obtain ⟨rfl, -⟩ := bad
        exact absurd subject (by decide)
      · obtain ⟨t, decoded, same⟩ :=
          verification_page subject type operator expected compares (plain rfl)
        exact ⟨_, decoded, same, rfl, rfl, (plain rfl).symm⟩

/-! ## Lines -/

/-- A command that verifies knows what it looks at. If the statement of its line was understood, its
words are the statement's and it is decoded into what the statement asks for, with a keyword's path
in place of the keyword; only a misspelled state is refused. -/
theorem verification_of_line {keywords : KeywordSet} {timeout line : Nat} {text : List Char}
    (read : parseLine? keywords timeout line text = some c) (verify : c.isVerify) :
    c.verifyType.isSome ∧ ∀ v, VerifyStatement.parse? c.src = some v →
      c.code = v.normalForm keywords ∧
      (Misspelled v → c.verification = .error (.invalidOperand "verify" v.expected)) ∧
      (¬ Misspelled v → ∃ w, c.verification = .ok w ∧ Asks v (v.element keywords) w) := by
  refine ⟨(parseLine?_statement read).2 verify, fun v parsed => ?_⟩
  have whole := eq_of_statement read verify parsed
  have code : c.code = v.normalForm keywords := by rw [whole]
  have states : States v c := by
    rw [whole]
    exact ⟨rfl, rfl, rfl⟩
  refine ⟨code, verification_of_understood (VerifyStatement.understood_of_parse? parsed) states
    (locator_of_normalForm code (by rw [whole])) fun unlocated => ?_⟩
  rw [VerifyStatement.element, unlocated]
  rfl

def saving : KeywordSet := { shared := [Keyword.new "Save" "//button[. = \x7b$\x7d]"] }

/-- A statement among other words, with a Kelvin sign for `k`, in an element that a keyword
names. -/
def tangled : String := "Click: verify the STATE of it is chec\u212aed in \"Save\" now"

theorem verification_of_line_tangled : ∃ c v w,
    parseLine? saving 5000 0 tangled.toList = some c ∧ c.isVerify ∧ c.verifyType.isSome ∧
      VerifyStatement.parse? c.src = some v ∧ ¬ Misspelled v ∧
      c.code = ["verify", "\"checked\"", "in", "//button[. = 'Save']"] ∧
      c.verification = .ok w ∧ Asks v (some "//button[. = 'Save']") w := by
  have read : parseLine? saving 5000 0 tangled.toList = some
      { line := 0
        code := ["verify", "\"checked\"", "in", "//button[. = 'Save']"]
        src := tangled
        timeout := 5000
        verifyType := some .state
        verifyOperator := some .is
        verifyExpected := some "checked"
        verifyLocator := some "//button[. = 'Save']"
        verifyTarget := some "it" } := by decide +kernel
  have parsed : VerifyStatement.parse? tangled =
      some ⟨.state, .is, "checked", some "Save", some "it"⟩ := by decide +kernel
  have spelled : ¬ Misspelled ⟨.state, .is, "checked", some "Save", some "it"⟩ := fun bad =>
    absurd bad.2 (by decide)
  obtain ⟨typed, decoded⟩ := verification_of_line read rfl
  obtain ⟨-, -, good⟩ := decoded _ parsed
  obtain ⟨w, decoded, asks⟩ := good spelled
  exact ⟨_, _, w, read, rfl, typed, parsed, spelled, rfl, decoded, asks⟩

/-- The statement is understood, but not the state. -/
example : (parseLine? {} 5000 0 "verify state is viſible".toList).map Command.verification =
    some (.error (.invalidOperand "verify" "viſible")) := by decide +kernel

end BrowserScript.Script
