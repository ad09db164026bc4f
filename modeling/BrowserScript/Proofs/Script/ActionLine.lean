import BrowserScript.Command.Action
import BrowserScript.Proofs.Decimal.Digits
import BrowserScript.Proofs.Script.VerifyLine
import BrowserScript.Proofs.Script.Words

/-!
Actions that are written as lines. A line is put together from words and from texts in quotes; what
stands in quotes is one word, whatever it holds. The words become the code of a command, and the
code is decoded into the action that was written.
-/

namespace BrowserScript.Script

/-! ## Lines in parts -/

/-- A part of a line: a word, or a text between quotes. -/
inductive Part
  | word (w : String)
  | quoted (q : Char) (t : String)

def Part.chars : Part → List Char
  | .word w => w.toList
  | .quoted q t => q :: (t.toList ++ [q])

/-- A text that the quotes around it do not end. -/
structure Fits (q : Char) (t : String) : Prop where
  quote : VerifyStatement.isQuote q
  ne_nil : t.toList ≠ []
  closed : q ∉ t.toList

def Part.Plain : Part → Prop
  | .word w => w.toList ≠ [] ∧ ∀ c ∈ w.toList, Text.isAsciiLetter c ∨ Text.isAsciiDigit c
  | .quoted q t => Fits q t

/-- The parts with a space between neighbours. -/
def lineOf : List Part → List Char
  | [] => []
  | [p] => p.chars
  | p :: ps => p.chars ++ ' ' :: lineOf ps

variable {p : Part} {ps : List Part} {q : Char} {t : String} {c : Command}

theorem isWordChar_of_ascii {x : Char} (ascii : Text.isAsciiLetter x ∨ Text.isAsciiDigit x) :
    Text.isWordChar x := by
  rcases ascii with letter | digit
  · simp [Text.isWordChar, letter]
  · simp [Text.isWordChar, digit]

theorem words_part (plain : p.Plain) (rest : List Char) :
    words (p.chars ++ ' ' :: rest) = p.chars :: words rest := by
  cases p with
  | word w =>
      rw [Part.chars, words_of_run plain.1 (fun x there => isWordChar_of_ascii (plain.2 x there))
        (by decide), words_space]
  | quoted q t =>
      obtain ⟨quote, ne, closed⟩ := plain
      rw [Part.chars, List.cons_append, List.append_assoc, List.singleton_append,
        words_of_quoted quote ne closed, words_space]
      rfl

theorem words_last_part (plain : p.Plain) : words p.chars = [p.chars] := by
  cases p with
  | word w => exact words_of_last_run plain.1 fun x there => isWordChar_of_ascii (plain.2 x there)
  | quoted q t =>
      obtain ⟨quote, ne, closed⟩ := plain
      rw [Part.chars, words_of_quoted quote ne closed, words]
      rfl

/-- The words of a line are its parts. -/
theorem words_lineOf (plain : ∀ p ∈ ps, p.Plain) : words (lineOf ps) = ps.map Part.chars := by
  induction ps with
  | nil => rw [lineOf, words]; rfl
  | cons p ps ih =>
      obtain ⟨first, plain⟩ := List.forall_mem_cons.mp plain
      cases ps with
      | nil => exact words_last_part first
      | cons p' ps =>
          rw [lineOf, words_part first, ih plain]
          · rfl
          · simp

theorem Part.Plain.ends (plain : p.Plain) : (∃ x, p.chars.head? = some x ∧ ¬ Text.isBlank x) ∧
    ∃ y, p.chars.getLast? = some y ∧ ¬ Text.isBlank y := by
  cases p with
  | word w =>
      obtain ⟨ne, ascii⟩ := plain
      have first := List.head?_eq_some_head ne
      have last := List.getLast?_eq_some_getLast ne
      exact ⟨⟨_, first, Text.not_blank_of_ascii (ascii _ (List.head_mem ne))⟩,
        _, last, Text.not_blank_of_ascii (ascii _ (List.getLast_mem ne))⟩
  | quoted q t =>
      have solid := VerifyStatement.not_blank_of_isQuote plain.quote
      exact ⟨⟨q, rfl, solid⟩, q, List.getLast?_concat (l := q :: t.toList), solid⟩

theorem ends_lineOf (ne : ps ≠ []) (plain : ∀ p ∈ ps, p.Plain) :
    (∃ x, (lineOf ps).head? = some x ∧ ¬ Text.isBlank x) ∧
      ∃ y, (lineOf ps).getLast? = some y ∧ ¬ Text.isBlank y := by
  induction ps with
  | nil => exact absurd rfl ne
  | cons p ps ih =>
      obtain ⟨first, plain⟩ := List.forall_mem_cons.mp plain
      cases ps with
      | nil => exact first.ends
      | cons p' ps =>
          obtain ⟨x, head, start⟩ := first.ends.1
          obtain ⟨y, last, stop⟩ := (ih (List.cons_ne_nil p' ps) plain).2
          refine ⟨⟨x, ?_, start⟩, y, ?_, stop⟩
          · rw [lineOf, List.head?_append, head]
            · rfl
            · simp
          · rw [lineOf, List.getLast?_append, List.getLast?_cons, last]
            · rfl
            · simp

theorem trim_lineOf (ne : ps ≠ []) (plain : ∀ p ∈ ps, p.Plain) :
    Text.trim (lineOf ps) = lineOf ps := by
  obtain ⟨⟨x, first, start⟩, y, last, stop⟩ := ends_lineOf ne plain
  exact Text.trim_of_ends first start last stop

/-! ## The code of a line -/

variable {unread : Bool} {w : String} {ws : List (List Char)}

/-- A text in quotes as a word of a command. -/
def literal (q : Char) (t : String) : String := String.ofList (Part.quoted q t).chars

theorem takeWords_quoted (fits : Fits q t) :
    takeWords unread c ((Part.quoted q t).chars :: ws) =
      takeWords unread (c.push (literal q t)) ws := by
  have opens : startsLiteral (Part.quoted q t).chars := by
    have quote := fits.quote
    simp only [VerifyStatement.isQuote, Bool.or_eq_true, beq_iff_eq] at quote
    rcases quote with rfl | rfl <;> rfl
  rw [takeWords, if_pos opens]
  rfl

theorem lowered_of_plain (small : Reading.Plain w) : Text.lowered (String.ofList w.toList) = w := by
  have letter : ∀ c ∈ w.toList, c.toNat < 0x80 ∧ Text.asciiLower c = c := by
    intro c there
    have high : c.toNat ≤ 122 := UInt32.le_iff_toNat_le.mp (small c there).2
    have ascii : c.toNat < 0x80 := by omega
    refine ⟨ascii, ?_⟩
    rw [← Reading.plainLetter_of_ascii ascii]
    exact Reading.plainLetter_of_plain (small c there)
  rw [Text.lowered_of_ascii fun c there => (letter c there).1,
    List.map_congr_left fun c there => (letter c there).2, List.map_id', String.ofList_toList]

theorem takeWords_plain (mem : w ∈ plainWords) :
    takeWords unread c (w.toList :: ws) = takeWords unread (c.push w) ws := by
  have facts : ∀ w ∈ plainWords, Reading.Plain w ∧ startsLiteral w.toList = false ∧
      (w == "click") = false ∧ (w == "wait") = false := by decide
  obtain ⟨small, bare, click, wait⟩ := facts w mem
  rw [takeWords]
  simp only [bare, lowered_of_plain small, click, wait, Bool.false_eq_true, if_false]
  exact if_pos (List.contains_iff_mem.mpr mem)

theorem takeWords_connective (mem : w ∈ connectives) :
    takeWords unread c (w.toList :: ws) =
      takeWords unread { c with code := pushConnective c.code } ws := by
  have facts : ∀ w ∈ connectives, Reading.Plain w ∧ startsLiteral w.toList = false ∧
      (w == "click") = false ∧ (w == "wait") = false ∧ plainWords.contains w = false := by decide
  obtain ⟨small, bare, click, wait, other⟩ := facts w mem
  rw [takeWords]
  simp only [bare, lowered_of_plain small, click, wait, other, Bool.false_eq_true, if_false]
  exact if_pos (List.contains_iff_mem.mpr mem)

theorem takeWords_click : takeWords unread c ("click".toList :: ws) =
    takeWords unread ((c.push "click").push Command.connective) ws := by
  have small : Text.lowered (String.ofList "click".toList) = "click" :=
    lowered_of_plain (by decide)
  rw [takeWords]
  simp only [small]
  rfl

theorem takeWords_wait (d : List Char) : takeWords unread c ("wait".toList :: d :: ws) =
    takeWords unread ((c.push "wait").push (String.ofList d)) ws := by
  have small : Text.lowered (String.ofList "wait".toList) = "wait" := lowered_of_plain (by decide)
  rw [takeWords]
  simp only [small]
  rfl

theorem pushConnective_of_last {code : List String} {x : String} (last : code.getLast? = some x)
    (ne : x ≠ "in") : pushConnective code = code ++ ["in"] := by
  rw [pushConnective, last]
  exact if_neg fun same => ne (eq_of_beq same)

/-! ## The action of a code -/

section Codes

variable {q' : Char} {v l verb : String}

theorem Fits.isQuoted (fits : Fits q t) : Command.isQuoted (literal q t) = true :=
  isQuoted_of_ends fits.quote String.toList_ofList

theorem Fits.unquote (fits : Fits q t) : Command.unquote (literal q t) = t := by
  have whole : (literal q t).toList = q :: t.toList ++ [q] := String.toList_ofList
  rw [unquote_of_ends fits.quote whole, String.ofList_toList]

theorem Fits.ne (fits : Fits q t) (bare : Command.isQuoted w = false) : literal q t ≠ w := by
  rintro rfl
  rw [fits.isQuoted] at bare
  cases bare

theorem Fits.ne_in (fits : Fits q t) : literal q t ≠ "in" := fits.ne (by decide)

theorem verb_of_code {rest : List String} (code : c.code = w :: rest) : c.verb = some w := by
  rw [Command.verb, code]
  rfl

theorem value_of_second (second : c.code[1]? = some (literal q v)) (fits : Fits q v) :
    c.value = some v := by
  have other : (literal q v != Command.connective) = true := bne_iff_ne.mpr fits.ne_in
  rw [Command.value, second, Option.filter_some, if_pos other, Option.map_some, fits.unquote]

/-- A command of a locator. -/
theorem locator_of_code (code : c.code = [verb, "in", literal q l]) (other : verb ≠ "in")
    (fits : Fits q l) : c.locator = some l := by
  have free : Command.connective ∉ [verb] := by
    simpa [Command.connective] using other.symm
  rw [Command.locator, Command.operand, inIndex_of_split free code]
  simp [code, fits.unquote]

/-- A command of a value and a locator. -/
theorem fields_of_code (code : c.code = [verb, literal q v, "in", literal q' l])
    (other : verb ≠ "in") (fits : Fits q v) (fits' : Fits q' l) :
    c.value = some v ∧ c.locator = some l := by
  have free : Command.connective ∉ [verb, literal q v] := by
    simpa [Command.connective] using ⟨other.symm, fits.ne_in.symm⟩
  refine ⟨value_of_second (by rw [code]; rfl) fits, ?_⟩
  rw [Command.locator, Command.operand, inIndex_of_split free code]
  simp [code, fits'.unquote]

/-- A command of a value alone. -/
theorem fields_of_value (code : c.code = [verb, literal q v]) (other : verb ≠ "in")
    (bare : Command.isQuoted verb = false) (fits : Fits q v) :
    c.value = some v ∧ c.locator = none ∧ c.quotedLiterals = [v] := by
  have free : Command.connective ∉ c.code := by
    rw [code]
    simpa [Command.connective] using ⟨other.symm, fits.ne_in.symm⟩
  refine ⟨value_of_second (by rw [code]; rfl) fits, ?_, ?_⟩
  · rw [Command.locator, Command.operand, inIndex_of_free free]
    rfl
  · simp [Command.quotedLiterals, code, bare, fits.isQuoted, fits.unquote]

theorem neededLocator_of_locator (located : c.locator = some l) (ne : l.toList ≠ [])
    (verb : String) : c.neededLocator verb = .ok l := by
  have full : (l != "") = true := by
    refine bne_iff_ne.mpr ?_
    rintro rfl
    exact ne rfl
  rw [Command.neededLocator, located, Option.filter_some, if_pos full]
  rfl

theorem plain_toString (n : Nat) : (Part.word (toString n)).Plain := by
  rw [Part.Plain, Decimal.toList_toString]
  exact ⟨by simp, fun d there => .inr (Decimal.isAsciiDigit_of_mem_toDigits there)⟩

/-- A number below 2^64 is read as that many milliseconds. -/
theorem milliseconds?_toString {n : Nat} (small : n < 1 <<< 64) :
    Command.milliseconds? (toString n) = some n := by
  have all : (Nat.toDigits 10 n).all Text.isAsciiDigit = true :=
    List.all_eq_true.mpr fun d there => Decimal.isAsciiDigit_of_mem_toDigits there
  have full : (Nat.toDigits 10 n).isEmpty = false := by simp
  rw [Command.milliseconds?, Decimal.toList_toString]
  dsimp only
  -- The digits do not start with a sign.
  split
  · next r signed =>
      have plus := Decimal.isAsciiDigit_of_mem_toDigits (signed ▸ List.mem_cons_self ..)
      exact absurd plus (by decide)
  · rw [all, full, Decimal.digitsValue_toDigits]
    exact if_pos small

end Codes

/-! ## Written actions -/

theorem bullet?_of_ne {x : Char} (ne : x ≠ '*') (cs : List Char) : bullet? (x :: cs) = none := by
  unfold bullet?
  split
  · next same =>
      obtain ⟨rfl, -⟩ := List.cons.inj same
      exact absurd rfl ne
  · rfl

/-- A line that starts with a word is no bullet. -/
theorem bullet?_lineOf (plain : (Part.word w).Plain) (ps : List Part) :
    bullet? (lineOf (.word w :: ps)) = none := by
  obtain ⟨ne, ascii⟩ := plain
  cases chars : w.toList with
  | nil => exact absurd chars ne
  | cons x xs =>
      have first : x ≠ '*' := by
        rintro rfl
        exact absurd (ascii '*' (chars ▸ List.mem_cons_self ..)) (by decide)
      cases ps with
      | nil =>
          rw [lineOf, Part.chars, chars]
          exact bullet?_of_ne first xs
      | cons p ps =>
          rw [lineOf, Part.chars, chars]
          · exact bullet?_of_ne first _
          · simp

/-- The command of a line that is put together from parts. -/
theorem parseLine?_lineOf {keywords : KeywordSet} (plain : ∀ p ∈ .word w :: ps, p.Plain)
    (timeout line : Nat) : parseLine? keywords timeout line (lineOf (.word w :: ps)) =
      some ((takeWords false
        { line, code := [], src := String.ofList (lineOf (.word w :: ps)), timeout }
        (w.toList :: ps.map Part.chars)).resolve keywords) := by
  have ne : lineOf (.word w :: ps) ≠ [] := by
    obtain ⟨⟨x, first, -⟩, -⟩ := ends_lineOf (List.cons_ne_nil _ _) plain
    intro empty
    rw [empty] at first
    cases first
  rw [parseLine?_of_trimmed keywords timeout line (trim_lineOf (List.cons_ne_nil _ _) plain) ne,
    readLine, bullet?_lineOf (plain _ (List.mem_cons_self ..)), words_lineOf plain]
  rfl

/-- Without keywords a command that verifies nothing stays as it is. -/
theorem resolve_empty (other : c.isVerify = false) : c.resolve {} = c := by
  unfold Command.resolve
  split
  · rfl
  · split
    · rfl
    · simp only [other, Bool.false_eq_true, if_false]
      split
      · rfl
      · rfl

/-- The line of an action: each of its texts between quotes of either kind that it does not hold. -/
inductive Spells : Action → List Part → Prop
  | click {q : Char} {l : String} (fits : Fits q l) :
      Spells (.click l) [.word "click", .word "on", .quoted q l]
  | type {q q' : Char} {v l : String} (fits : Fits q v) (fits' : Fits q' l) :
      Spells (.type l v) [.word "type", .quoted q v, .word "in", .quoted q' l]
  | select {q q' : Char} {v l : String} (fits : Fits q v) (fits' : Fits q' l) :
      Spells (.select l v) [.word "select", .quoted q v, .word "in", .quoted q' l]
  | pressOn {q q' : Char} {k l : String} (fits : Fits q k) (fits' : Fits q' l) :
      Spells (.press k (some l)) [.word "press", .quoted q k, .word "on", .quoted q' l]
  | press {q : Char} {k : String} (fits : Fits q k) :
      Spells (.press k none) [.word "press", .quoted q k]
  | mouseover {q : Char} {l : String} (fits : Fits q l) :
      Spells (.mouseover l) [.word "mouseover", .word "on", .quoted q l]
  | wait {n : Nat} (small : n < 1 <<< 64) : Spells (.wait n) [.word "wait", .word (toString n)]
  | navigate {q : Char} {u : String} (fits : Fits q u) :
      Spells (.navigate u) [.word "open", .quoted q u]
  | under {q : Char} {h : String} (fits : Fits q h) :
      Spells (.under (some h)) [.word "under", .quoted q h]

/-- A text that can be put between quotes of one kind. -/
def Quotable (t : String) : Prop := t.toList ≠ [] ∧ ('"' ∉ t.toList ∨ '\'' ∉ t.toList)

/-- An action that can be written as a line. -/
def Writable : Action → Prop
  | .click l | .mouseover l => Quotable l
  | .type l v | .select l v => Quotable l ∧ Quotable v
  | .press k l => Quotable k ∧ ∀ t ∈ l, Quotable t
  | .wait n => n < 1 <<< 64
  | .navigate u => Quotable u
  | .under h => ∃ t, h = some t ∧ Quotable t
  | .verify _ | .unsupported _ | .noop => False

theorem Quotable.fits (quotable : Quotable t) : ∃ q, Fits q t := by
  obtain ⟨ne, closed | closed⟩ := quotable
  · exact ⟨'"', rfl, ne, closed⟩
  · exact ⟨'\'', rfl, ne, closed⟩

theorem exists_spells {a : Action} (writable : Writable a) : ∃ ps, Spells a ps := by
  cases a with
  | click l =>
      obtain ⟨q, fits⟩ := Quotable.fits writable
      exact ⟨_, .click fits⟩
  | mouseover l =>
      obtain ⟨q, fits⟩ := Quotable.fits writable
      exact ⟨_, .mouseover fits⟩
  | type l v =>
      obtain ⟨q, fits⟩ := writable.2.fits
      obtain ⟨q', fits'⟩ := writable.1.fits
      exact ⟨_, .type fits fits'⟩
  | select l v =>
      obtain ⟨q, fits⟩ := writable.2.fits
      obtain ⟨q', fits'⟩ := writable.1.fits
      exact ⟨_, .select fits fits'⟩
  | press k l =>
      obtain ⟨q, fits⟩ := writable.1.fits
      cases l with
      | none => exact ⟨_, .press fits⟩
      | some l =>
          obtain ⟨q', fits'⟩ := (writable.2 l rfl).fits
          exact ⟨_, .pressOn fits fits'⟩
  | wait n => exact ⟨_, .wait writable⟩
  | navigate u =>
      obtain ⟨q, fits⟩ := Quotable.fits writable
      exact ⟨_, .navigate fits⟩
  | under h =>
      obtain ⟨t, rfl, quotable⟩ := writable
      obtain ⟨q, fits⟩ := quotable.fits
      exact ⟨_, .under fits⟩
  | verify v => exact writable.elim
  | unsupported verb => exact writable.elim
  | noop => exact writable.elim

/-! ## Reading written actions -/

variable {line timeout : Nat} {src : String} {q' : Char} {v l : String}

theorem takeWords_of_value (mem : w ∈ plainWords) (fits : Fits q v) :
    takeWords false { line, code := [], src, timeout } [w.toList, (Part.quoted q v).chars] =
      { line, code := [w, literal q v], src, timeout } := by
  rw [takeWords_plain mem, takeWords_quoted fits]
  rfl

theorem takeWords_of_locator (mem : w ∈ plainWords) (fits : Fits q l) :
    takeWords false { line, code := [], src, timeout }
        [w.toList, "on".toList, (Part.quoted q l).chars] =
      { line, code := [w, "in", literal q l], src, timeout } := by
  have other : ∀ w ∈ plainWords, w ≠ "in" := by decide
  have pushed : pushConnective [w] = [w, "in"] := pushConnective_of_last rfl (other w mem)
  rw [takeWords_plain mem, takeWords_connective (by decide), takeWords_quoted fits]
  change { line, code := pushConnective [w] ++ [literal q l], src, timeout : Command } = _
  rw [pushed]
  rfl

theorem takeWords_of_both (mem : w ∈ plainWords) {x : String} (connects : x ∈ connectives)
    (fits : Fits q v) (fits' : Fits q' l) :
    takeWords false { line, code := [], src, timeout }
        [w.toList, (Part.quoted q v).chars, x.toList, (Part.quoted q' l).chars] =
      { line, code := [w, literal q v, "in", literal q' l], src, timeout } := by
  have pushed : pushConnective [w, literal q v] = [w, literal q v, "in"] :=
    pushConnective_of_last rfl fits.ne_in
  rw [takeWords_plain mem, takeWords_quoted fits, takeWords_connective connects,
    takeWords_quoted fits']
  change { line, code := pushConnective [w, literal q v] ++ [literal q' l], src, timeout : Command } =
    _
  rw [pushed]
  rfl

theorem takeWords_click_on (fits : Fits q l) :
    takeWords false { line, code := [], src, timeout }
        ["click".toList, "on".toList, (Part.quoted q l).chars] =
      { line, code := ["click", "in", literal q l], src, timeout } := by
  rw [takeWords_click, takeWords_connective (by decide), takeWords_quoted fits]
  rfl

theorem plain_of_mem (mem : w ∈ "click" :: "wait" :: connectives ++ plainWords) :
    (Part.word w).Plain := by
  have facts : ∀ w ∈ "click" :: "wait" :: connectives ++ plainWords, w.toList ≠ [] ∧
      ∀ c ∈ w.toList, Text.isAsciiLetter c ∨ Text.isAsciiDigit c := by decide
  exact facts w mem

/-- A line is read as an action if the code that its words make is decoded into it. -/
theorem read_of_code {a : Action} (code : List String) (plain : ∀ p ∈ .word w :: ps, p.Plain)
    (taken : ∀ src, takeWords false { line, code := [], src, timeout }
      (w.toList :: ps.map Part.chars) = { line, code, src, timeout })
    (other : code.head? ≠ some "verify")
    (action : ∀ c : Command, c.code = code → c.action = .ok a) :
    ∃ c, parseLine? {} timeout line (lineOf (.word w :: ps)) = some c ∧ c.action = .ok a := by
  let c : Command := { line, code, src := String.ofList (lineOf (.word w :: ps)), timeout }
  have verb : c.isVerify = false := beq_false_of_ne other
  refine ⟨c, ?_, action c rfl⟩
  rw [parseLine?_lineOf plain timeout line, taken, resolve_empty verb]

theorem read_of_value {a : Action} (mem : w ∈ plainWords) (fits : Fits q v)
    (action : ∀ c : Command, c.code = [w, literal q v] → c.action = .ok a) :
    ∃ c, parseLine? {} timeout line (lineOf [.word w, .quoted q v]) = some c ∧
      c.action = .ok a := by
  have other : ∀ w ∈ plainWords, w ≠ "verify" := by decide
  refine read_of_code _ ?_ (fun src => takeWords_of_value mem fits)
    (fun same => other w mem (Option.some.inj same)) action
  simp only [List.forall_mem_cons]
  exact ⟨plain_of_mem (List.mem_append_right _ mem), fits, List.forall_mem_nil _⟩

theorem read_of_both {a : Action} (mem : w ∈ plainWords) {x : String} (connects : x ∈ connectives)
    (fits : Fits q v) (fits' : Fits q' l)
    (action : ∀ c : Command, c.code = [w, literal q v, "in", literal q' l] → c.action = .ok a) :
    ∃ c, parseLine? {} timeout line (lineOf [.word w, .quoted q v, .word x, .quoted q' l]) =
      some c ∧ c.action = .ok a := by
  have other : ∀ w ∈ plainWords, w ≠ "verify" := by decide
  have connective : ∀ x ∈ connectives, x ∈ "click" :: "wait" :: connectives ++ plainWords := by
    decide
  refine read_of_code _ ?_ (fun src => takeWords_of_both mem connects fits fits')
    (fun same => other w mem (Option.some.inj same)) action
  simp only [List.forall_mem_cons]
  exact ⟨plain_of_mem (List.mem_append_right _ mem), fits, plain_of_mem (connective x connects),
    fits', List.forall_mem_nil _⟩

/-- A written action is read back from its line. -/
theorem action_of_spells {a : Action} (spells : Spells a ps) (timeout line : Nat) :
    ∃ c, parseLine? {} timeout line (lineOf ps) = some c ∧ c.action = .ok a := by
  cases spells with
  | @click q l fits =>
      refine read_of_code ["click", "in", literal q l] ?_ (fun src => takeWords_click_on fits)
        (by simp) fun c code => ?_
      · simp only [List.forall_mem_cons]
        exact ⟨plain_of_mem (by decide), plain_of_mem (by decide), fits, List.forall_mem_nil _⟩
      · have located := locator_of_code code (by decide) fits
        rw [Command.action, verb_of_code code]
        simp only [neededLocator_of_locator located fits.ne_nil]
        rfl
  | @type q q' v l fits fits' =>
      refine read_of_both (by decide) (by decide) fits fits' fun c code => ?_
      obtain ⟨value, located⟩ := fields_of_code code (by decide) fits fits'
      rw [Command.action, verb_of_code code]
      simp only [neededLocator_of_locator located fits'.ne_nil, value]
      rfl
  | @select q q' v l fits fits' =>
      refine read_of_both (by decide) (by decide) fits fits' fun c code => ?_
      obtain ⟨value, located⟩ := fields_of_code code (by decide) fits fits'
      rw [Command.action, verb_of_code code]
      simp only [neededLocator_of_locator located fits'.ne_nil, value]
      rfl
  | @pressOn q q' k l fits fits' =>
      refine read_of_both (by decide) (by decide) fits fits' fun c code => ?_
      obtain ⟨value, located⟩ := fields_of_code code (by decide) fits fits'
      rw [Command.action, verb_of_code code]
      simp only [value, located]
      rfl
  | @press q k fits =>
      refine read_of_value (by decide) fits fun c code => ?_
      obtain ⟨value, located, -⟩ := fields_of_value code (by decide) (by decide) fits
      rw [Command.action, verb_of_code code]
      simp only [value, located]
      rfl
  | @mouseover q l fits =>
      refine read_of_code ["mouseover", "in", literal q l] ?_
        (fun src => takeWords_of_locator (by decide) fits) (by simp) fun c code => ?_
      · simp only [List.forall_mem_cons]
        exact ⟨plain_of_mem (by decide), plain_of_mem (by decide), fits, List.forall_mem_nil _⟩
      · have located := locator_of_code code (by decide) fits
        -- The first text in quotes stands in for a locator only where there is none.
        have full : (l != "") = true := bne_iff_ne.mpr fun empty => fits.ne_nil (empty ▸ rfl)
        rw [Command.action, verb_of_code code]
        have needed : (c.locator <|> c.quotedLiterals.head?).filter (· != "") = some l := by
          rw [located]
          exact if_pos full
        simp only [needed]
        rfl
  | @wait n small =>
      refine read_of_code ["wait", toString n] ?_ (fun src => ?_) (by simp) fun c code => ?_
      · simp only [List.forall_mem_cons]
        exact ⟨plain_of_mem (by decide), plain_toString n, List.forall_mem_nil _⟩
      · rw [List.map_cons, takeWords_wait, Part.chars, String.ofList_toList]
        rfl
      · have verb : c.verb = some "wait" := by rw [Command.verb, code]; rfl
        have raw : (c.code[1]?).getD "" = toString n := by rw [code]; rfl
        rw [Command.action, verb_of_code code]
        simp only [raw, milliseconds?_toString small]
        rfl
  | @navigate q u fits =>
      refine read_of_value (by decide) fits fun c code => ?_
      obtain ⟨-, -, literals⟩ := fields_of_value code (by decide) (by decide) fits
      rw [Command.action, verb_of_code code]
      simp only [literals]
      rfl
  | @under q h fits =>
      refine read_of_value (by decide) fits fun c code => ?_
      obtain ⟨-, -, literals⟩ := fields_of_value code (by decide) (by decide) fits
      rw [Command.action, verb_of_code code]
      simp only [literals]
      rfl

/-- Every action whose texts can be put between quotes has a line, and each of its lines is read
back as the action: no word, verb, connective, brace or other quote inside a text is taken for
syntax. -/
theorem action_of_written {a : Action} (writable : Writable a) (timeout line : Nat) :
    (∃ ps, Spells a ps) ∧ ∀ ps, Spells a ps →
      ∃ c, parseLine? {} timeout line (lineOf ps) = some c ∧ c.action = .ok a :=
  ⟨exists_spells writable, fun _ spells => action_of_spells spells timeout line⟩

theorem action_of_written_type :
    Writable (.type "//a[@title='on']" "in \"verify\" \x7bclick\x7d") ∧
      ∃ c, parseLine? {} 5000 0
          "type 'in \"verify\" \x7bclick\x7d' in \"//a[@title='on']\"".toList = some c ∧
        c.action = .ok (.type "//a[@title='on']" "in \"verify\" \x7bclick\x7d") := by
  have writable : Writable (.type "//a[@title='on']" "in \"verify\" \x7bclick\x7d") :=
    ⟨⟨by decide, .inl (by decide)⟩, by decide, .inr (by decide)⟩
  have spells : Spells (.type "//a[@title='on']" "in \"verify\" \x7bclick\x7d")
      [.word "type", .quoted '\'' "in \"verify\" \x7bclick\x7d", .word "in",
        .quoted '"' "//a[@title='on']"] :=
    .type ⟨rfl, by decide, by decide⟩ ⟨rfl, by decide, by decide⟩
  exact ⟨writable, (action_of_written writable 5000 0).2 _ spells⟩

end BrowserScript.Script
