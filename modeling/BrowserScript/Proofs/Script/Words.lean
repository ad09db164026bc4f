import BrowserScript.Command.Basic
import BrowserScript.Proofs.Script.Phrase
import BrowserScript.Script.Word

/-!
The words of a line that is put together from words, blanks and texts in quotes; and what quotes and
the connective mean among the words of a command.
-/

namespace BrowserScript.Script

variable {c q : Char} {w cs rest : List Char}

/-! ## Lines -/

theorem words_of_word? (read : word? (c :: cs) = some (w, rest)) :
    words (c :: cs) = w :: words rest := by
  rw [words]
  split
  · next read' =>
      obtain ⟨rfl, rfl⟩ := Prod.mk.inj (Option.some.inj (read.symm.trans read'))
      rfl
  · next none =>
      rw [read] at none
      cases none

theorem words_skip (unread : word? (c :: cs) = none) : words (c :: cs) = words cs := by
  rw [words]
  split
  · next read =>
      rw [unread] at read
      cases read
  · rfl

theorem word?_of_run (first : Text.isWordChar c) :
    word? (c :: cs) = some (run Text.isWordChar c cs) := if_pos first

/-- A word ends where a character follows that words are not made of. -/
theorem words_of_run (ne : w ≠ []) (letters : ∀ x ∈ w, Text.isWordChar x)
    (stop : ¬ Text.isWordChar c) (cs : List Char) :
    words (w ++ c :: cs) = w :: words (c :: cs) := by
  cases w with
  | nil => exact absurd rfl ne
  | cons x w =>
      obtain ⟨first, letters⟩ := List.forall_mem_cons.mp letters
      obtain ⟨taken, left⟩ := VerifyStatement.takeWhile_dropWhile_of_stop letters stop cs
      refine words_of_word? ((word?_of_run first).trans ?_)
      change some (x :: (w ++ c :: cs).takeWhile _, (w ++ c :: cs).dropWhile _) = _
      rw [taken, left]

theorem words_of_last_run (ne : w ≠ []) (letters : ∀ x ∈ w, Text.isWordChar x) :
    words w = [w] := by
  cases w with
  | nil => exact absurd rfl ne
  | cons x w =>
      obtain ⟨first, letters⟩ := List.forall_mem_cons.mp letters
      have taken : (w ++ []).takeWhile Text.isWordChar = w ++ [] :=
        List.takeWhile_append_of_pos letters
      have left : (w ++ []).dropWhile Text.isWordChar = [] := List.dropWhile_append_of_pos letters
      rw [List.append_nil] at taken left
      have read : word? (x :: w) = some (x :: w, []) := by
        rw [word?_of_run first, run, taken, left]
      rw [words_of_word? read, words]

theorem words_space (cs : List Char) : words (' ' :: cs) = words cs := by
  refine words_skip ?_
  cases cs <;> rfl

theorem word?_of_quote (quote : VerifyStatement.isQuote q) : word? (q :: cs) = quoted? q cs := by
  simp only [VerifyStatement.isQuote, Bool.or_eq_true, beq_iff_eq] at quote
  rcases quote with rfl | rfl <;> rfl

theorem words_of_quoted (quote : VerifyStatement.isQuote q) (ne : cs ≠ []) (closed : q ∉ cs)
    (rest : List Char) : words (q :: (cs ++ q :: rest)) = (q :: cs ++ [q]) :: words rest := by
  have pass : ∀ x ∈ cs, (x != q) = true := by
    intro x there
    refine bne_iff_ne.mpr ?_
    rintro rfl
    exact closed there
  obtain ⟨taken, left⟩ := VerifyStatement.takeWhile_dropWhile_of_stop pass
    (show ¬ (q != q) = true by simp) rest
  refine words_of_word? ((word?_of_quote quote).trans ?_)
  rw [quoted?, taken, left]
  cases cs with
  | nil => exact absurd rfl ne
  | cons c cs => rfl

/-! ## Commands -/

variable {a : String} {command : Command}

theorem isQuoted_of_ends (quote : VerifyStatement.isQuote q) (whole : a.toList = q :: cs ++ [q]) :
    Command.isQuoted a = true := by
  have first : a.toList.head? = some q := by rw [whole]; rfl
  have last : a.toList.getLast? = some q := by rw [whole, List.getLast?_concat]
  have long : 2 ≤ a.toList.length := by simp [whole]
  simp only [VerifyStatement.isQuote, Bool.or_eq_true, beq_iff_eq] at quote
  rcases quote with rfl | rfl <;> simp [Command.isQuoted, first, last, long]

theorem unquote_of_ends (quote : VerifyStatement.isQuote q) (whole : a.toList = q :: cs ++ [q]) :
    Command.unquote a = String.ofList cs := by
  rw [Command.unquote, if_pos (isQuoted_of_ends quote whole), whole]
  simp

theorem inIndex_of_free (free : Command.connective ∉ command.code) : command.inIndex = none := by
  refine List.findIdx?_eq_none_iff.mpr fun word there => beq_false_of_ne ?_
  rintro rfl
  exact free there

/-- The first connective stands behind the words that are none. -/
theorem inIndex_of_split {xs ys : List String} (free : Command.connective ∉ xs)
    (code : command.code = xs ++ Command.connective :: ys) : command.inIndex = some xs.length := by
  have none : xs.findIdx? (· == Command.connective) = none := by
    refine List.findIdx?_eq_none_iff.mpr fun word there => beq_false_of_ne ?_
    rintro rfl
    exact free there
  rw [Command.inIndex, code, List.findIdx?_append, none]
  simp [List.findIdx?_cons]

end BrowserScript.Script
