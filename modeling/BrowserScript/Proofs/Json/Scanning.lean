import BrowserScript.Json.Printer
import BrowserScript.Json.Reader
import BrowserScript.Proofs.Decimal.Digits
import Mathlib.Data.List.TakeWhile

/-!
The tokens of printed documents. What is printed of a value is read as the tokens of the value; a
number or a literal is complete only at the next character, or at the end.
-/

namespace BrowserScript.Json

/-- The tokens so far, where a document may end. -/
def settled : Scanner → Option (List Token)
  | (.idle, ts) => some ts
  | (.bare cs, ts) => (bareToken? cs.reverse).map (· :: ts)
  | _ => none

theorem tokens?_eq (cs : List Char) :
    tokens? cs = ((cs.foldlM scanChar (.idle, [])).bind settled).map List.reverse := by
  rw [tokens?]
  cases cs.foldlM scanChar (Scan.idle, []) with
  | none => rfl
  | some scanner =>
      obtain ⟨scan, ts⟩ := scanner
      cases scan with
      | bare cs =>
          simp only [Option.bind_some, settled, Option.map_map]
          rfl
      | _ => rfl

/-- Characters that are read as these tokens, the last of which may not be complete. -/
def Spells (cs : List Char) (us : List Token) : Prop :=
  ∀ ts, ∃ scanner, cs.foldlM scanChar (.idle, ts) = some scanner ∧
    settled scanner = some (us.reverse ++ ts)

/-- Characters that are read as these tokens, all complete. -/
def Closes (cs : List Char) (us : List Token) : Prop :=
  ∀ ts, cs.foldlM scanChar (.idle, ts) = some (.idle, us.reverse ++ ts)

variable {cs xs ys : List Char} {us vs : List Token} {c : Char} {t : Token}

theorem Closes.spells (h : Closes cs us) : Spells cs us := fun ts => ⟨_, h ts, rfl⟩

theorem Closes.append_spells (first : Closes xs us) (rest : Spells ys vs) :
    Spells (xs ++ ys) (us ++ vs) := by
  intro ts
  obtain ⟨scanner, reads, ends⟩ := rest (us.reverse ++ ts)
  refine ⟨scanner, ?_, by rw [ends, List.reverse_append, List.append_assoc]⟩
  rw [List.foldlM_append, first ts]
  exact reads

theorem Closes.append (first : Closes xs us) (rest : Closes ys vs) :
    Closes (xs ++ ys) (us ++ vs) := by
  intro ts
  rw [List.foldlM_append, first ts, List.reverse_append, List.append_assoc]
  exact rest (us.reverse ++ ts)

theorem scanChar_of_settled {scanner : Scanner} {ts : List Token} (ends : settled scanner = some ts)
    (sharp : isBare c = false) : scanChar scanner c = startToken ts c := by
  obtain ⟨scan, old⟩ := scanner
  cases scan with
  | idle =>
      cases ends
      rfl
  | bare cs =>
      obtain ⟨t, token, rfl⟩ := Option.map_eq_some_iff.mp ends
      simp [scanChar, sharp, token]
  | _ => cases ends

/-- The next character completes the last token unless it could belong to it. -/
theorem Spells.append_closes (first : Spells xs us) (sharp : isBare c = false)
    (rest : Closes (c :: ys) vs) : Closes (xs ++ c :: ys) (us ++ vs) := by
  intro ts
  obtain ⟨scanner, reads, ends⟩ := first ts
  rw [List.foldlM_append, reads, List.reverse_append, List.append_assoc, ← rest]
  show (c :: ys).foldlM scanChar scanner = _
  rw [List.foldlM_cons, List.foldlM_cons, scanChar_of_settled ends sharp]
  rfl

theorem tokens?_of_spells (h : Spells cs us) : tokens? cs = some us := by
  obtain ⟨scanner, reads, ends⟩ := h []
  rw [tokens?_eq, reads, Option.bind_some, ends, List.append_nil, Option.map_some,
    List.reverse_reverse]

/-! ## Between tokens -/

theorem closes_nil : Closes [] [] := fun _ => rfl

theorem closes_blanks (blank : ∀ b ∈ cs, isJsonBlank b) : Closes cs [] := by
  intro ts
  induction cs with
  | nil => rfl
  | cons b cs ih =>
      have skip : scanChar (.idle, ts) b = some (.idle, ts) := by
        simp [scanChar, startToken, blank b]
      rw [List.foldlM_cons, skip]
      exact ih fun b mem => blank b (List.mem_cons_of_mem _ mem)

theorem closes_newline (level : Nat) : Closes (newline level).toList [] := by
  refine closes_blanks fun b mem => ?_
  rw [newline, String.toList_append] at mem
  rcases List.mem_append.mp mem with mem | mem
  · obtain rfl := List.mem_singleton.mp mem
    rfl
  · rw [String.toList_ofList] at mem
    obtain ⟨-, rfl⟩ := List.mem_replicate.mp mem
    rfl

/-! ## Literals and numbers -/

theorem startToken_of_isBare (bare : isBare c) (ts : List Token) :
    startToken ts c = some (.bare [c], ts) := by
  have ne : ∀ d, isBare d = false → c ≠ d := by
    rintro d sharp rfl
    rw [bare] at sharp
    cases sharp
  have solid : isJsonBlank c = false := by
    simp [isJsonBlank, ne ' ' (by decide), ne '\t' (by decide), ne '\n' (by decide),
      ne '\r' (by decide)]
  rw [startToken.eq_def, solid, if_neg Bool.false_ne_true]
  split
  case h_8 => rfl
  all_goals exact absurd rfl (ne _ (by decide))

theorem foldlM_bare {acc : List Char} {ts : List Token} (bare : ∀ d ∈ cs, isBare d) :
    cs.foldlM scanChar (.bare acc, ts) = some (.bare (cs.reverse ++ acc), ts) := by
  induction cs generalizing acc with
  | nil => rfl
  | cons d cs ih =>
      have push : scanChar (.bare acc, ts) d = some (.bare (d :: acc), ts) := by
        simp [scanChar, bare d]
      rw [List.foldlM_cons, push, List.reverse_cons, List.append_assoc]
      exact ih fun d mem => bare d (List.mem_cons_of_mem _ mem)

theorem spells_bare (bare : ∀ d ∈ cs, isBare d) (ne : cs ≠ []) (token : bareToken? cs = some t) :
    Spells cs [t] := by
  intro ts
  obtain ⟨c, cs, rfl⟩ := List.exists_cons_of_ne_nil ne
  refine ⟨(.bare (cs.reverse ++ [c]), ts), ?_, ?_⟩
  · rw [List.foldlM_cons]
    show (startToken ts c).bind _ = _
    rw [startToken_of_isBare (bare c List.mem_cons_self)]
    exact foldlM_bare fun d mem => bare d (List.mem_cons_of_mem _ mem)
  · rw [settled, ← List.reverse_cons, List.reverse_reverse, token]
    rfl

/-- The number has neither a point nor an exponent, and no zero in front. -/
structure Whole (ds : List Char) : Prop where
  digits : ∀ d ∈ ds, Text.isAsciiDigit d
  ne_nil : ds ≠ []
  head : ds.head? = some '0' → ds.length = 1

theorem whole_toDigits (n : Nat) : Whole (Nat.toDigits 10 n) where
  digits _ there := Decimal.isAsciiDigit_of_mem_toDigits there
  ne_nil := Nat.toDigits_ne_nil
  head zero := by
    rcases Nat.eq_zero_or_pos n with rfl | pos
    · rfl
    · exact absurd zero (Decimal.head?_toDigits_ne pos)

theorem ofChars?_whole {ds : List Char} (whole : Whole ds) (negative : Bool) :
    Lexeme.ofChars? (if negative then '-' :: ds else ds) = some ⟨negative, ds, none, none⟩ := by
  have all : ds.takeWhile Text.isAsciiDigit = ds := List.takeWhile_eq_self_iff.mpr whole.digits
  have rest : ds.dropWhile Text.isAsciiDigit = [] := List.dropWhile_eq_nil_iff.mpr whole.digits
  have plain : (ds.isEmpty || (ds.head? == some '0' && ds.length != 1)) = false := by
    have full : ds.isEmpty = false := by simpa using whole.ne_nil
    rw [full, Bool.false_or, Bool.and_eq_false_iff]
    by_cases zero : ds.head? = some '0'
    · exact .inr (by simp [whole.head zero])
    · exact .inl (by simpa using zero)
  cases negative with
  | true => simp [Lexeme.ofChars?, all, rest, plain]
  | false =>
      rw [if_neg Bool.false_ne_true, Lexeme.ofChars?]
      · simp [all, rest, plain]
      · rintro r rfl
        exact absurd (whole.digits '-' List.mem_cons_self) (by decide)

theorem number?_toDigits {n : Nat} (small : n ≤ maxWord) :
    number? (Nat.toDigits 10 n) = some (.int n) := by
  have lexeme := ofChars?_whole (whole_toDigits n) false
  rw [if_neg Bool.false_ne_true] at lexeme
  simp [number?, lexeme, Decimal.digitsValue_toDigits, small]

theorem number?_neg {n : Nat} (pos : 0 < n) (small : n ≤ 1 <<< 63) :
    number? ('-' :: Nat.toDigits 10 n) = some (.int (-(n : Int))) := by
  have lexeme := ofChars?_whole (whole_toDigits n) true
  rw [if_pos rfl] at lexeme
  have ne : n ≠ 0 := Nat.ne_of_gt pos
  have fits : n ≤ 9223372036854775808 := small
  simp [number?, lexeme, Decimal.digitsValue_toDigits, fits, ne]

theorem isBare_of_isAsciiDigit {d : Char} (digit : Text.isAsciiDigit d) : isBare d := by
  simp [isBare, digit]

theorem bareToken?_of_number {cs : List Char} {j : Json}
    (numeric : ∀ d ∈ cs, Text.isAsciiDigit d ∨ d = '-') (number : number? cs = some j) :
    bareToken? cs = some (.scalar j) := by
  have ne : ∀ w d, d ∈ String.toList w → ¬ (Text.isAsciiDigit d ∨ d = '-') →
      String.ofList cs ≠ w := by
    rintro w d mem other rfl
    rw [String.toList_ofList] at mem
    exact other (numeric d mem)
  -- each literal has a letter that no number has
  rw [bareToken?.eq_def]
  split
  case h_1 same => exact absurd same (ne "null" 'n' (by decide) (by decide))
  case h_2 same => exact absurd same (ne "true" 't' (by decide) (by decide))
  case h_3 same => exact absurd same (ne "false" 'f' (by decide) (by decide))
  case h_4 => rw [number, Option.map_some]

/-- The integers that are printed and read as such. -/
def IsWord (n : Int) : Prop := -(1 <<< 63 : Nat) ≤ n ∧ n ≤ maxWord

theorem isWord_natCast {n : Nat} (small : n < 1 <<< 64) : IsWord n :=
  ⟨Int.le_trans (by decide) (Int.natCast_nonneg n), Int.ofNat_le.mpr (Nat.le_pred_of_lt small)⟩

theorem spells_int {n : Int} (word : IsWord n) :
    Spells (toString n).toList [.scalar (.int n)] := by
  cases n with
  | ofNat n =>
      have small : n ≤ maxWord := Int.ofNat_le.mp word.2
      show Spells (toString n).toList _
      rw [Decimal.toList_toString]
      have digits := (whole_toDigits n).digits
      exact spells_bare (fun d mem => isBare_of_isAsciiDigit (digits d mem)) Nat.toDigits_ne_nil
        (bareToken?_of_number (fun d mem => .inl (digits d mem)) (number?_toDigits small))
  | negSucc n =>
      have small : n + 1 ≤ 1 <<< 63 := by
        have low := word.1
        omega
      have minus : (toString (Int.negSucc n)).toList = '-' :: Nat.toDigits 10 (n + 1) := by
        rw [← Decimal.toList_toString]
        exact String.toList_append (s := "-")
      rw [minus]
      have signed : ∀ d ∈ '-' :: Nat.toDigits 10 (n + 1), Text.isAsciiDigit d ∨ d = '-' := by
        intro d mem
        rcases List.mem_cons.mp mem with rfl | mem
        · exact .inr rfl
        · exact .inl ((whole_toDigits (n + 1)).digits d mem)
      refine spells_bare (fun d mem => ?_) (List.cons_ne_nil _ _)
        (bareToken?_of_number signed (number?_neg (Nat.succ_pos n) small))
      rcases signed d mem with digit | rfl
      · exact isBare_of_isAsciiDigit digit
      · rfl

/-! ## Texts -/

theorem hexDigit?_hexChar {n : Nat} (digit : n < 16) : hexDigit? (hexChar n) = some n := by
  revert n
  decide

theorem hexValue?_control {n : Nat} (control : n < 0x20) :
    hexValue? ['0', '0', hexChar (n / 16), hexChar (n % 16)] = some n := by
  have zero : hexDigit? '0' = some 0 := rfl
  have high := hexDigit?_hexChar (n := n / 16) (by omega)
  have low := hexDigit?_hexChar (n := n % 16) (by omega)
  simp only [hexValue?, List.foldlM_cons, List.foldlM_nil, zero, high, low, Option.map_some]
  show some _ = some n
  congr 1
  omega

theorem endHex_control {n : Nat} (control : n < 0x20) (acc : List Char) :
    endHex acc none n = some (.text (Char.ofNat n :: acc)) := by
  rw [endHex]
  rw [if_neg (by omega), if_neg (by omega)]

/-- An escaped character is read as itself, inside a text. -/
theorem foldlM_escape (c : Char) (acc : List Char) (ts : List Token) :
    (escape c).foldlM scanChar (.text acc, ts) = some (.text (c :: acc), ts) := by
  rw [escape.eq_def]
  split
  case h_8 quote slash _ _ _ _ _ =>
    -- no short escape: either spelled by its code or as it is
    split
    · rename_i control
      have high := hexDigit?_hexChar (n := c.toNat / 16) (by omega)
      have value := hexValue?_control control
      have ends := endHex_control control acc
      rw [Char.ofNat_toNat] at ends
      simp [scanChar, high, value, ends, show hexDigit? '0' = some 0 from rfl]
    · rename_i visible
      have plain : c ≠ '"' := quote
      have sharp : c ≠ '\\' := slash
      simp [scanChar, plain, sharp, visible]
  all_goals rfl

theorem foldlM_quoted (cs acc : List Char) (ts : List Token) :
    (cs.foldr (fun c rest => escape c ++ rest) ['"']).foldlM scanChar (.text acc, ts) =
      some (.idle, .text (String.ofList (acc.reverse ++ cs)) :: ts) := by
  induction cs generalizing acc with
  | nil =>
      rw [List.append_nil]
      rfl
  | cons c cs ih =>
      rw [List.foldr_cons, List.foldlM_append, foldlM_escape, Option.bind_eq_bind, Option.bind_some,
        ih, List.reverse_cons, List.append_assoc]
      rfl

theorem closes_quote (s : String) : Closes (quote s).toList [.text s] := by
  intro ts
  have opens : scanChar (.idle, ts) '"' = some (.text [], ts) := rfl
  rw [quote, String.toList_ofList, List.foldlM_cons, opens, Option.bind_eq_bind, Option.bind_some,
    foldlM_quoted, List.reverse_nil, List.nil_append, String.ofList_toList]
  rfl

end BrowserScript.Json
