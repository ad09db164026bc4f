import BrowserScript.Decimal.Text

/-!
The decimal digits of a number.
-/

namespace BrowserScript.Decimal

theorem toList_toString (n : Nat) : (toString n).toList = Nat.toDigits 10 n := by
  rw [Nat.toString_eq_repr, Nat.toList_repr]

theorem isAsciiDigit_of_mem_toDigits {n : Nat} {d : Char} (there : d ∈ Nat.toDigits 10 n) :
    Text.isAsciiDigit d := by
  have digit := Nat.isDigit_of_mem_toDigits (by decide) (by decide) there
  simpa [Char.isDigit, Text.isAsciiDigit, Char.le_def] using digit

theorem digitsValue_toDigits (n : Nat) : digitsValue (Nat.toDigits 10 n) = n := by
  rw [digitsValue]
  exact (Nat.ofDigitChars_eq_foldl ..).symm.trans Nat.ofDigitChars_ten_toDigits

/-- Only zero begins with a zero. -/
theorem head?_toDigits_ne {n : Nat} (pos : 0 < n) : (Nat.toDigits 10 n).head? ≠ some '0' := by
  induction n using Nat.strongRecOn with
  | ind n ih =>
      by_cases small : n < 10
      · have digits : ∀ d < 10, 0 < d → d.digitChar ≠ '0' := by decide
        rw [Nat.toDigits_of_lt_base small]
        simpa using digits n small pos
      · have first := ih (n / 10) (by omega) (by omega)
        rw [Nat.toDigits_of_base_le (by decide) (Nat.le_of_not_lt small)]
        cases digits : Nat.toDigits 10 (n / 10) with
        | nil => exact absurd digits Nat.toDigits_ne_nil
        | cons d ds => rwa [digits] at first

end BrowserScript.Decimal
