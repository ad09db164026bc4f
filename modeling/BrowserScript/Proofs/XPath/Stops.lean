import BrowserScript.Proofs.XPath.Spelling

/-!
Where tokens end. A text that is read to its end is read to the same tokens when a character comes
after it that no token goes on with, such as a quote.
-/

namespace BrowserScript.XPath

variable {c d : Char} {cs ds rest : List Char} {t : Token}

namespace Token

/-- A character that no token goes on with. -/
def isStop (c : Char) : Bool :=
  !isNumberChar c && !isNameChar c && c != '/' && c != '=' && c != ':'

/-- A character that no token but a name goes on with. -/
def endsSigns (c : Char) : Bool := !isNumberChar c && c != '/' && c != '=' && c != ':'

theorem takeWhile_stop {p : Char → Bool} (stop : ¬ p c ∨ ∃ x ∈ ds, ¬ p x) (more : List Char) :
    (ds ++ c :: more).takeWhile p = ds.takeWhile p := by
  induction ds with
  | nil => exact List.takeWhile_cons_of_neg (stop.resolve_right (by simp))
  | cons d ds ih =>
      rw [List.cons_append, List.takeWhile_cons, List.takeWhile_cons]
      by_cases pass : p d
      · rw [if_pos pass, if_pos pass, ih (by simpa [pass] using stop)]
      · rw [if_neg pass, if_neg pass]

theorem dropWhile_stop {p : Char → Bool} (stop : ¬ p c ∨ ∃ x ∈ ds, ¬ p x) (more : List Char) :
    (ds ++ c :: more).dropWhile p = ds.dropWhile p ++ c :: more := by
  induction ds with
  | nil => exact List.dropWhile_cons_of_neg (stop.resolve_right (by simp))
  | cons d ds ih =>
      rw [List.cons_append, List.dropWhile_cons, List.dropWhile_cons]
      by_cases pass : p d
      · rw [if_pos pass, if_pos pass, ih (by simpa [pass] using stop)]
      · rw [if_neg pass, if_neg pass, List.cons_append]

/-- Where a character fails that occurs, what comes after does not matter. -/
theorem span_append {p : Char → Bool} {x : Char} (found : ds.dropWhile p = x :: rest)
    (more : List Char) : (ds ++ more).takeWhile p = ds.takeWhile p ∧
      (ds ++ more).dropWhile p = x :: (rest ++ more) := by
  induction ds with
  | nil => cases found
  | cons d ds ih =>
      rw [List.cons_append, List.takeWhile_cons, List.takeWhile_cons, List.dropWhile_cons]
      rw [List.dropWhile_cons] at found
      split at found
      · next pass =>
          obtain ⟨taken, left⟩ := ih found
          simp only [pass, if_true, taken, left, and_self]
      · next fail =>
          obtain ⟨rfl, rfl⟩ := List.cons.inj found
          simp [fail]

theorem any_head?_append {p : Char → Bool} (stop : ¬ p c) (ds more : List Char) :
    (ds ++ c :: more).head?.any p = ds.head?.any p := by
  cases ds with
  | nil => exact Bool.eq_false_iff.mpr stop
  | cons => rfl

/-- Two characters do not make a sign across the end of a text. -/
theorem single_append (signs : endsSigns c) (single : ds.head?.bind (pair? d) = none)
    (more : List Char) : (ds ++ c :: more).head?.bind (pair? d) = none := by
  cases ds with
  | nil =>
      show pair? d c = none
      unfold pair?
      split
      case h_7 => rfl
      all_goals exact absurd signs (by decide)
  | cons => exact single

theorem word?_append (signs : endsSigns c)
    (name : isNameStart d → ¬ isNameChar c ∨ ∃ x ∈ ds, ¬ isNameChar x)
    (word : word? d ds = some (t, rest)) (more : List Char) :
    word? d (ds ++ c :: more) = some (t, rest ++ c :: more) := by
  have noNumber : ¬ isNumberChar c := by
    simp only [endsSigns, Bool.and_eq_true, Bool.not_eq_true'] at signs
    exact Bool.eq_false_iff.mp signs.1.1.1
  have noDigit : ¬ Text.isAsciiDigit c := fun digit =>
    noNumber (Bool.or_eq_true_iff.mpr (.inl digit))
  unfold word? at word ⊢
  rw [any_head?_append noDigit, takeWhile_stop (.inl noNumber), dropWhile_stop (.inl noNumber)]
  split at word
  · next quote =>
      rw [if_pos quote]
      split at word
      · cases word
      · next found =>
          obtain ⟨taken, left⟩ := span_append found (c :: more)
          rw [taken, left]
          cases word
          rfl
  · next noQuote =>
      rw [if_neg noQuote]
      split at word
      · next starts =>
          rw [if_pos starts]
          obtain ⟨f, value, same⟩ := Option.map_eq_some_iff.mp word
          cases same
          rw [value]
          rfl
      · next noNumber =>
          rw [if_neg noNumber]
          split at word
          · next dot =>
              rw [if_pos dot]
              cases word
              rfl
          · next noDot =>
              rw [if_neg noDot]
              split at word
              · next start =>
                  rw [if_pos start, takeWhile_stop (name start), dropWhile_stop (name start)]
                  cases word
                  rfl
              · cases word

/-- A token that is read before the end of a text is read before a stop, too, and before anything
but a sign if it is no name that goes up to the end. -/
theorem next?_append (signs : endsSigns c)
    (name : isNameStart d → ¬ isNameChar c ∨ ∃ x ∈ ds, ¬ isNameChar x)
    (next : next? d ds = some (t, rest)) (more : List Char) :
    next? d (ds ++ c :: more) = some (t, rest ++ c :: more) := by
  obtain ⟨e, pair, rfl⟩ | ⟨single, ⟨sign, rfl⟩ | ⟨sign, word⟩⟩ := next?_cases next
  · exact next?_pair pair _
  · exact next?_sign sign (single_append signs single more)
  · rw [next?_word sign (single_append signs single more)]
    exact word?_append signs name word more

theorem next?_suffix (next : next? d ds = some (t, rest)) : rest <:+ ds := by
  obtain ⟨e, -, rfl⟩ | ⟨-, ⟨-, rfl⟩ | ⟨-, word⟩⟩ := next?_cases next
  · exact List.suffix_cons ..
  · exact List.suffix_rfl
  · obtain ⟨q, -, found, -⟩ | ⟨_, -, rfl⟩ | ⟨-, rfl⟩ | ⟨_, -, rfl⟩ := word?_cases word
    · exact (List.suffix_cons q rest).trans (found ▸ List.dropWhile_suffix _)
    · exact List.dropWhile_suffix _
    · exact List.suffix_rfl
    · exact List.dropWhile_suffix _

theorem isNameChar_of_isNameStart (start : isNameStart c) : isNameChar c := by
  simp only [isNameStart, isNameChar, Text.isLetterOrNumber, Bool.or_eq_true] at start ⊢
  exact start.imp_left fun letter => .inl (.inl letter)

end Token

/-- Tokens up to a place do not depend on what follows there, if that is neither a sign that could
belong to a token before it nor, after a name, a character of names. -/
theorem tokens?_append_apart (signs : Token.endsSigns c)
    (names : Token.isNameChar c → ∀ x ∈ cs.getLast?, ¬ Token.isNameChar x) {ts : List Token}
    (read : tokens? cs = some ts) (more : List Char) :
    tokens? (cs ++ c :: more) = (tokens? (c :: more)).map (ts ++ ·) := by
  have later (before : List Char) {after : List Char} {x : Char} (last : x ∈ after.getLast?) :
      x ∈ (before ++ after).getLast? := by
    rw [List.getLast?_append, Option.mem_def.mp last]
    rfl
  induction cs using tokens?.induct generalizing ts with
  | case1 =>
      rw [tokens?] at read
      obtain rfl := Option.some.inj read
      exact (congrFun Option.map_id _).symm
  | case2 d cs blank ih =>
      rw [tokens?_blank blank] at read
      have names := fun own x mem => names own x (later [d] mem)
      rw [List.cons_append, tokens?_blank blank, ih names read]
  | case3 d cs solid t rest next ih =>
      have solid := Bool.eq_false_iff.mpr solid
      have name : Token.isNameStart d →
          ¬ Token.isNameChar c ∨ ∃ x ∈ cs, ¬ Token.isNameChar x := by
        intro start
        rw [or_iff_not_imp_left, not_not]
        intro own
        rcases List.eq_nil_or_concat cs with rfl | ⟨front, x, rfl⟩
        · exact absurd (Token.isNameChar_of_isNameStart start) (names own d rfl)
        · exact ⟨x, by simp, names own x (later [d] (by simp))⟩
      obtain ⟨taken, split⟩ := Token.next?_suffix next
      have names := fun own x mem =>
        names own x (split ▸ later (d :: taken) mem)
      rw [tokens?_next solid next] at read
      obtain ⟨others, left, rfl⟩ := Option.map_eq_some_iff.mp read
      rw [List.cons_append, tokens?_next solid (Token.next?_append signs name next more),
        ih names left, Option.map_map]
      rfl
  | case4 d cs solid next =>
      rw [tokens?, if_neg solid] at read
      split at read
      · next found => cases found.symm.trans next
      · cases read

/-- Tokens up to a stop do not depend on what follows there. -/
theorem tokens?_append_stop (stop : Token.isStop c) {ts : List Token} (read : tokens? cs = some ts)
    (more : List Char) : tokens? (cs ++ c :: more) = (tokens? (c :: more)).map (ts ++ ·) := by
  simp only [Token.isStop, Bool.and_eq_true, Bool.not_eq_true'] at stop
  obtain ⟨⟨⟨⟨number, name⟩, slash⟩, equal⟩, colon⟩ := stop
  refine tokens?_append_apart ?_ (fun own => ?_) read more
  · simp only [Token.endsSigns, number, slash, equal, colon, Bool.not_false, Bool.and_self]
  · rw [name] at own
    cases own

end BrowserScript.XPath
