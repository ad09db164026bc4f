import BrowserScript.Proofs.Script.Decoding
import BrowserScript.Proofs.Script.Extension
import BrowserScript.Proofs.Script.Finding

/-!
The element that is named after a statement. A statement that is understood without a locator is
understood in the same way when the line goes on, and what follows names its element only if it does
so with `in`, directly after the statement, and the statement is not one of the page. A connective
of other commands, `on` or `into`, is passed over, and so is the element.
-/

namespace BrowserScript.Script

namespace VerifyStatement

open Reading

variable {f : Family} {cs rest S : List Char} {v : VerifyStatement} {w L : String}

/-- What names an element at the end of a line. -/
def naming (w L : String) : List Char := ' ' :: (w.toList ++ ' ' :: '"' :: (L.toList ++ ['"']))

/-- How a locator starts. -/
def locatorStart : Reading Char := do
  let _ ← blanks
  let _ ← word "in"
  let _ ← someBlanks
  char isQuote

/-! ## Where no locator is read -/

theorem inLocator_split {span : Span} (read : (span, rest) ∈ inLocator cs) :
    ∃ i bs q u, cs = i ++ bs ++ q :: u ∧ Spelled "in" i ∧ Gap bs ∧ isQuote q := by
  obtain ⟨i, _, connective, read⟩ := mem_bind.mp read
  obtain ⟨bs, mid, blanks, located⟩ := mem_bind.mp read
  obtain ⟨rfl, spelled⟩ := (mem_word (by decide)).mp connective
  obtain ⟨rfl, gap⟩ := mem_someBlanks.mp blanks
  cases mid with
  | nil => exact absurd located List.not_mem_nil
  | cons q u =>
      refine ⟨i, bs, q, u, (List.append_assoc ..).symm, spelled, gap, ?_⟩
      refine Classical.byContradiction fun bare => ?_
      rw [quotedLocator, if_neg bare] at located
      exact List.not_mem_nil located

/-- A quote that follows anything but `in` and blanks opens no locator. -/
theorem inLocator_of_lead {p u : List Char} {q : Char} (free : ∀ c ∈ p, ¬ isQuote c)
    (quote : isQuote q) (other : ∀ i bs, p = i ++ bs → Spelled "in" i → ¬ Gap bs) :
    inLocator (p ++ q :: u) = [] := by
  rw [List.eq_nil_iff_forall_not_mem]
  rintro ⟨span, rest⟩ read
  obtain ⟨i, bs, q', u', split, spelled, gap, quote'⟩ := inLocator_split read
  refine other i bs (eq_of_first_quote free ?_ quote quote' split) spelled gap
  exact List.forall_mem_append.mpr ⟨spelled.free (by decide), free_of_gap gap⟩

theorem words_of_lead {i bs : List Char} (spelled : Spelled "in" i) (gap : Gap bs) :
    Text.words (i ++ bs) = [i] := by
  rw [Text.words_append_of_blanks gap.blank, spelled.words (by decide) (by decide)]

theorem free_of_connective (mem : w ∈ connectives) : ∀ c ∈ w.toList, ¬ isQuote c := by
  have all : ∀ w ∈ connectives, ∀ c ∈ w.toList, ¬ isQuote c := by decide
  exact all w mem

theorem words_of_connective (mem : w ∈ connectives) : Text.words w.toList = [w.toList] := by
  have all : ∀ w ∈ connectives, Text.words w.toList = [w.toList] := by decide
  exact all w mem

theorem exists_first_quote {r : List Char} (quoted : ¬ ∀ c ∈ r, ¬ isQuote c) :
    ∃ p q u, r = p ++ q :: u ∧ (∀ c ∈ p, ¬ isQuote c) ∧ isQuote q := by
  have whole := List.takeWhile_append_dropWhile (p := (!isQuote ·)) (l := r)
  have free : ∀ c ∈ r.takeWhile (!isQuote ·), ¬ isQuote c := fun c there => by
    simpa using List.all_eq_true.mp List.all_takeWhile c there
  cases rest : r.dropWhile (!isQuote ·) with
  | nil =>
      rw [rest, List.append_nil] at whole
      exact absurd (whole ▸ free) quoted
  | cons q u =>
      rw [rest] at whole
      have stop := List.head?_dropWhile_not (!isQuote ·) r
      rw [rest] at stop
      exact ⟨_, q, u, whole.symm, free, by simpa using stop⟩

theorem unblanked_of_connective (mem : w ∈ connectives) (u : List Char) :
    Unblanked (w.toList ++ u) := by
  simp only [connectives, List.mem_cons, List.not_mem_nil, or_false] at mem
  rcases mem with rfl | rfl | rfl <;> exact unblanked_cons.mpr (by decide)

/-- No locator is read where the line goes on with other words than `in`. -/
theorem inLocator_naming {r : List Char} (mem : w ∈ connectives) (L : String)
    (unblanked : Unblanked r) (ne : r ≠ []) (closed : ∀ i bs q u, r = i ++ bs ++ q :: u →
      Spelled "in" i → Gap bs → ¬ isQuote q) : inLocator (r ++ naming w L) = [] := by
  by_cases free : ∀ c ∈ r, ¬ isQuote c
  · have split : r ++ naming w L =
        (r ++ ' ' :: (w.toList ++ [' '])) ++ '"' :: (L.toList ++ ['"']) := by simp [naming]
    have lone : ¬ isQuote ' ' := by decide
    rw [split]
    refine inLocator_of_lead ?_ rfl fun i bs lead spelled gap => ?_
    · simp only [List.forall_mem_append, List.forall_mem_cons]
      exact ⟨free, lone, free_of_connective mem, lone, by simp⟩
    · -- Up to its quote a locator has one word, and the connective is that word already.
      have one := (congrArg Text.words lead).trans (words_of_lead spelled gap)
      rw [Text.words_append_blank rfl, Text.words_append_of_blanks (by decide),
        words_of_connective mem] at one
      have none : Text.words r = [] := by
        have := congrArg List.length one
        rw [List.length_append] at this
        exact List.eq_nil_of_length_eq_zero (by simpa using this)
      cases r with
      | nil => exact absurd rfl ne
      | cons c r =>
          have solid := unblanked_cons.mp unblanked
          exact Text.words_ne_nil (List.mem_cons_self ..) solid none
  · obtain ⟨p, q, u, rfl, before, quote⟩ := exists_first_quote free
    rw [List.append_assoc, List.cons_append]
    refine inLocator_of_lead before quote fun i bs lead spelled gap => ?_
    exact closed i bs q u (by rw [lead]) spelled gap quote

/-! ## The locator of a longer line -/

theorem not_quote_of_unlocated {bs r i gap u : List Char} {q : Char}
    (unlocated : locatorStart (bs ++ r) = []) (start : ∀ b ∈ bs, Text.isBlank b)
    (split : r = i ++ gap ++ q :: u) (spelled : Spelled "in" i) (gapped : Gap gap) :
    ¬ isQuote q := by
  intro quote
  have opened : (q, u) ∈ locatorStart (bs ++ r) := by
    refine mem_bind.mpr ⟨bs, r, mem_blanks.mpr ⟨rfl, start⟩, ?_⟩
    rw [split, List.append_assoc]
    refine mem_bind.mpr ⟨i, _, (mem_word (by decide)).mpr ⟨rfl, spelled⟩, ?_⟩
    refine mem_bind.mpr ⟨gap, _, mem_someBlanks.mpr ⟨rfl, gapped⟩, ?_⟩
    exact mem_char.mpr ⟨rfl, quote⟩
  rw [unlocated] at opened
  exact List.not_mem_nil opened

/-- The locator that is read from a line that goes on with an element. -/
def carried (f : Family) (w L : String) (rest : List Char) : Option String :=
  if f ≠ .page ∧ w = "in" ∧ ∀ b ∈ rest, Text.isBlank b then some L else none

theorem eq_of_carried {l : String} (carries : carried f w L rest = some l) : l = L := by
  unfold carried at carries
  split at carries
  · exact (Option.some.inj carries).symm
  · cases carries

theorem located_naming (aims : f ≠ .page) (mem : w ∈ connectives) (locates : Locatable L)
    (unlocated : locatorStart rest = []) (v : VerifyStatement) :
    ∃ u, (located (some v) (rest ++ naming w L)).head? =
      some (some { v with locator := carried f w L rest }, u) := by
  by_cases blank : ∀ b ∈ rest, Text.isBlank b
  · have blanks : ∀ b ∈ rest ++ [' '], Text.isBlank b :=
      List.forall_mem_append.mpr ⟨blank, by decide⟩
    have split : rest ++ naming w L =
        rest ++ [' '] ++ (w.toList ++ [' '] ++ '"' :: (L.toList ++ ['"'])) := by simp [naming]
    -- With nothing but blanks before it, the connective stands where a locator is looked for.
    by_cases isIn : w = "in"
    · subst isIn
      have found := located_at (v := v) blanks (unblanked_cons.mpr (by decide))
        (head?_inLocator locates.closed)
      rw [locates.text?_eq] at found
      rw [split, carried, if_pos ⟨aims, rfl, blank⟩]
      exact ⟨_, found⟩
    · have others : ∀ w ∈ connectives, w ≠ "in" → ¬ Spelled "in" w.toList := by decide
      have lone : ¬ isQuote ' ' := by decide
      rw [split, carried, if_neg fun carries => isIn carries.2.1]
      refine ⟨_, located_plain blanks ?_ (inLocator_of_lead ?_ rfl fun i bs lead spelled gap => ?_)⟩
      · rw [List.append_assoc]
        exact unblanked_of_connective mem _
      · exact List.forall_mem_append.mpr ⟨free_of_connective mem, by decide⟩
      · have one := (congrArg Text.words lead).trans (words_of_lead spelled gap)
        rw [Text.words_append_of_blanks (by decide), words_of_connective mem] at one
        obtain ⟨rfl, -⟩ := List.cons.inj one
        exact others w mem isIn spelled
  · -- Otherwise the first word behind the statement does, and no locator starts with it.
    obtain ⟨bs, r, rfl, start, unblanked⟩ := exists_blanks rest
    cases r with
    | nil => exact absurd (by simpa using start) blank
    | cons c r =>
        rw [carried, if_neg fun carries => blank carries.2.2, List.append_assoc]
        exact ⟨_, located_plain start (unblanked_cons.mpr (unblanked_cons.mp unblanked))
          (inLocator_naming mem L unblanked (List.cons_ne_nil c r)
            fun _ _ _ _ => not_quote_of_unlocated unlocated start)⟩

/-- A statement without a locator is understood at the head of a line in which no other starts, and
what follows it there could not be the start of a locator. -/
structure Recognised (f : Family) (S : List Char) (v : VerifyStatement) (rest : List Char) : Prop
    where
  first : (f.statement ("verify".toList ++ ' ' :: S)).head? = some (some v, rest)
  unlocated : locatorStart rest = []
  aimed : Aimed v
  headless : Headless S

theorem locator_of_statement (read : (some v, rest) ∈ f.statement cs) : v.locator = none := by
  obtain ⟨s, _, -, read⟩ := mem_bind.mp read
  obtain ⟨target, _, -, read⟩ := mem_bind.mp read
  obtain ⟨said, _, -, read⟩ := mem_bind.mp read
  obtain ⟨_, -, rfl⟩ := Option.map_eq_some_iff.mp (mem_pure.mp read).1.symm
  rfl

theorem headless_naming (mem : w ∈ connectives) (locates : Locatable L) (headless : Headless S) :
    Headless (S ++ naming w L) := by
  have words : ∀ w ∈ connectives, Silent w.toList ∧ PlainWords [w] ∧
      Clash ("that" :: "the" :: named.map Subject.word) [w] := by decide
  obtain ⟨silent, plain, clash⟩ := words w mem
  have empty : Silent [] := by decide
  have space : Text.asciiLower ' ' ∉ "verify".toList := by decide
  have quote : Text.asciiLower '"' ∉ "verify".toList := by decide
  have quoted : Silent ('"' :: (L.toList ++ ['"'])) :=
    empty.join (locates.silent.join empty quote) quote
  exact headless.append plain clash (empty.join (silent.join quoted space) space).headless

/-- A statement that is understood is understood in the longer line, with the locator it carries. -/
theorem parse?_naming (recognised : Recognised f S v rest) (mem : w ∈ connectives)
    (locates : Locatable L) {src : String}
    (line : src.toList = "verify".toList ++ ' ' :: (S ++ naming w L)) :
    parse? src = some { v with locator := carried f w L rest } := by
  have headless := headless_naming mem locates recognised.headless
  have first := statement_extends recognised.aimed recognised.first (naming w L)
  rw [List.append_assoc, List.cons_append] at first
  by_cases page : f = .page
  · subst page
    have unlocated := locator_of_statement (List.mem_of_head? recognised.first)
    have same : { v with locator := carried .page w L rest } = v := by
      rw [carried, if_neg fun carries => carries.1 rfl, ← unlocated]
    rw [same]
    exact parse?_of_head (f := .page) line first headless
  · obtain ⟨u, located⟩ := located_naming page mem locates recognised.unlocated v
    have whole := head?_bind_of_head first located
    rw [← reading_eq page] at whole
    exact parse?_of_head line whole headless

/-- Without what follows, the statement is understood and has no locator. -/
theorem parse?_of_recognised (recognised : Recognised f S v rest) {src : String}
    (line : src.toList = "verify".toList ++ ' ' :: S) :
    parse? src = some v ∧ v.locator = none := by
  have first := recognised.first
  have unlocated := locator_of_statement (List.mem_of_head? first)
  refine ⟨?_, unlocated⟩
  by_cases page : f = .page
  · subst page
    exact parse?_of_head (f := .page) line first recognised.headless
  · obtain ⟨bs, r, rfl, start, unblanked⟩ := exists_blanks rest
    have none : inLocator r = [] := by
      rw [List.eq_nil_iff_forall_not_mem]
      rintro ⟨span, u⟩ read
      obtain ⟨i, gap, q, u, split, spelled, gapped, quote⟩ := inLocator_split read
      exact not_quote_of_unlocated recognised.unlocated start split spelled gapped quote
    have whole := head?_bind_of_head first (located_plain (v := v) start unblanked none)
    rw [← reading_eq page, ← unlocated] at whole
    exact parse?_of_head line whole recognised.headless

theorem trim_naming (S : List Char) (w L : String) :
    Text.trim ("verify".toList ++ ' ' :: (S ++ naming w L)) =
      "verify".toList ++ ' ' :: (S ++ naming w L) := by
  have last : "verify".toList ++ ' ' :: (S ++ naming w L) =
      "verify".toList ++ ' ' :: (S ++ ' ' :: (w.toList ++ ' ' :: '"' :: L.toList)) ++ ['"'] := by
    simp [naming]
  exact Text.trim_of_ends (c := 'v') rfl (by decide) (last ▸ List.getLast?_concat) (by decide)

end VerifyStatement

open VerifyStatement

/-- If a command with the fields of a statement is decoded, the element is the one it names. -/
theorem locator_of_verification {v : VerifyStatement} {c : Command} {src : String}
    {a : Verification} (parsed : parse? src = some v) (states : States v c)
    (located : (c.verifyLocator <|> c.locator) = v.locator) (decoded : c.verification = .ok a) :
    a.locator = v.locator := by
  obtain ⟨bad, good⟩ := verification_of_understood (understood_of_parse? parsed) states located id
  by_cases misspelled : Misspelled v
  · rw [bad misspelled] at decoded
    cases decoded
  · obtain ⟨a', decoded', asks⟩ := good misspelled
    obtain rfl := Except.ok.inj (decoded'.symm.trans decoded)
    exact asks.locator

/-- What a line names after a statement is the element of its command only if `in` names it directly
after the statement, and the statement is not of the page. -/
theorem locator_of_naming {f : Family} {S rest : List Char} {v : VerifyStatement} {w L : String}
    {keywords : KeywordSet} (recognised : Recognised f S v rest) (mem : w ∈ connectives)
    (locates : Locatable L) (unknown : keywords.lookup L = none) (timeout line : Nat) :
    parse? (String.ofList ("verify".toList ++ ' ' :: S)) = some v ∧ v.locator = none ∧
      ∃ c, parseLine? keywords timeout line ("verify".toList ++ ' ' :: (S ++ naming w L)) = some c ∧
        c.isVerify ∧ c.locator = carried f w L rest ∧
        ∀ a, c.verification = .ok a → a.locator = carried f w L rest := by
  have trimmed := trim_naming S w L
  generalize whole : "verify".toList ++ ' ' :: (S ++ naming w L) = text at trimmed ⊢
  have parsed := parse?_naming recognised mem locates (String.toList_ofList.trans whole.symm)
  generalize meant : { v with locator := carried f w L rest } = v' at parsed
  have carries : v'.locator = carried f w L rest := by rw [← meant]
  have unnamed : ∀ l ∈ v'.locator, named? keywords l = none := by
    intro l there
    obtain rfl := eq_of_carried (carries.symm.trans (Option.mem_def.mp there))
    rw [named?, unknown]
    split <;> rfl
  have ne : text ≠ [] := whole ▸ List.cons_ne_nil _ _
  obtain ⟨alone, unlocated⟩ := parse?_of_recognised recognised
    (String.toList_ofList (l := "verify".toList ++ ' ' :: S))
  refine ⟨alone, unlocated,
    v'.applyTo { line, code := [], src := String.ofList text, timeout }, ?_, rfl, ?_, ?_⟩
  · rw [parseLine?_of_trimmed keywords timeout line trimmed ne, readLine_of_verb whole.symm parsed,
      resolve_of_unnamed _ unnamed]
  · exact (locator_applyTo ..).trans carries
  · intro a decoded
    refine (locator_of_verification parsed ⟨rfl, rfl, rfl⟩ ?_ decoded).trans carries
    rw [locator_applyTo]
    change (v'.locator <|> v'.locator) = _
    cases v'.locator <;> rfl

/-- A field whose value is looked up by its label, and the form that is named after it. -/
def cityOnForm : String :=
  "verify the value of City in  use equals 'verify it' on \"//form[@id='a']\""

theorem locator_of_naming_cityOnForm :
    VerifyStatement.parse? "verify the value of City in  use equals 'verify it'" =
      some ⟨.value, .equals, "verify it", none, some "City in  use"⟩ ∧
    ∃ c, parseLine? {} 5000 0 cityOnForm.toList = some c ∧ c.isVerify ∧ c.locator = none ∧
      ∀ a, c.verification = .ok a → a.locator = none := by
  have aimed : Aimed ⟨.value, .equals, "verify it", none, some "City in  use"⟩ := by
    intro T aims
    obtain rfl := Option.some.inj aims
    rfl
  have recognised : Recognised .value "the value of City in  use equals 'verify it'".toList
      ⟨.value, .equals, "verify it", none, some "City in  use"⟩ [] :=
    ⟨by decide +kernel, by decide, aimed, by decide +kernel⟩
  have locates : Locatable "//form[@id='a']" := ⟨by decide, by decide, by decide⟩
  have unknown : KeywordSet.lookup {} "//form[@id='a']" = none := rfl
  have whole : cityOnForm.toList = "verify".toList ++ ' ' ::
      ("the value of City in  use equals 'verify it'".toList ++ naming "on" "//form[@id='a']") := by
    decide +kernel
  obtain ⟨alone, -, c, read, verify, unlocated, checked⟩ :=
    locator_of_naming recognised (w := "on") (by decide) locates unknown 5000 0
  rw [← whole] at read
  exact ⟨alone, c, read, verify, unlocated, checked⟩

end BrowserScript.Script
