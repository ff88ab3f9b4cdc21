import Stencil.Proofs.Text.Digit
import Stencil.Text.Case

/-!
# Letters

Capitals, small letters and digits are kinds of characters that have nothing in common, and none of
them is a blank.  The change of case exchanges the letters of the first two kinds and keeps all
other characters.
-/

namespace Stencil.Text

variable {c : Char}

theorem isCapital_iff : isCapital c = true ↔ 65 ≤ c.toNat ∧ c.toNat ≤ 90 := by
  simp only [isCapital, Bool.and_eq_true, decide_eq_true_eq, char_le_iff]
  rfl

theorem isSmall_iff : isSmall c = true ↔ 97 ≤ c.toNat ∧ c.toNat ≤ 122 := by
  simp only [isSmall, Bool.and_eq_true, decide_eq_true_eq, char_le_iff]
  rfl

theorem isLetter_iff :
    isLetter c = true ↔ 65 ≤ c.toNat ∧ c.toNat ≤ 90 ∨ 97 ≤ c.toNat ∧ c.toNat ≤ 122 := by
  rw [isLetter, Bool.or_eq_true, isCapital_iff, isSmall_iff]

@[simp]
theorem isCapital_space : isCapital ' ' = false := by
  decide

@[simp]
theorem isSmall_space : isSmall ' ' = false := by
  decide

@[simp]
theorem isLetter_space : isLetter ' ' = false := by
  decide

@[simp]
theorem isDecimal_space : isDecimal ' ' = false := by
  decide

theorem isLetter_of_isCapital (capital : isCapital c = true) : isLetter c = true := by
  rw [isLetter, capital, Bool.true_or]

theorem isLetter_of_isSmall (small : isSmall c = true) : isLetter c = true := by
  rw [isLetter, small, Bool.or_true]

theorem isSmall_of_isCapital (capital : isCapital c = true) : isSmall c = false := by
  rw [isCapital_iff] at capital
  rw [Bool.eq_false_iff, Ne, isSmall_iff]
  omega

theorem isCapital_of_isSmall (small : isSmall c = true) : isCapital c = false := by
  rw [isSmall_iff] at small
  rw [Bool.eq_false_iff, Ne, isCapital_iff]
  omega

/-- The digits of all scripts lie before, between and behind the letters of ASCII. -/
theorem zeroDigits_beside_letters : ∀ first ∈ zeroDigits, first + 10 ≤ 65 ∨ 122 < first := by
  decide

theorem isDecimal_of_isLetter (letter : isLetter c = true) : isDecimal c = false := by
  rw [isDecimal, Option.isSome_eq_false_iff, Option.isNone_iff_eq_none,
    Option.eq_none_iff_forall_not_mem]
  intro value found
  obtain ⟨first, firstMem, code_eq, small⟩ := exists_of_digitValue? found
  have beside := zeroDigits_beside_letters first firstMem
  rw [isLetter_iff] at letter
  omega

theorem isLetter_of_isDecimal (digit : isDecimal c = true) : isLetter c = false := by
  rw [Bool.eq_false_iff]
  intro letter
  rw [isDecimal_of_isLetter letter] at digit
  cases digit

theorem isBlank_of_isLetter (letter : isLetter c = true) : isBlank c = false := by
  rw [isLetter_iff] at letter
  simp only [isBlank, Bool.or_eq_false_iff, Bool.and_eq_false_iff, decide_eq_false_iff_not,
    beq_eq_false_iff_ne]
  omega

theorem isLetter_of_isSmall_asciiLower (small : isSmall (asciiLower c) = true) :
    isLetter c = true := by
  rw [asciiLower] at small
  split at small
  · next capital => exact isLetter_of_isCapital capital
  · exact isLetter_of_isSmall small

theorem isDecimal_of_isAsciiDigit (digit : isAsciiDigit c = true) : isDecimal c = true := by
  rw [isDecimal, digitValue?_of_isAsciiDigit digit]
  rfl

theorem isBlank_of_isAsciiDigit (digit : isAsciiDigit c = true) : isBlank c = false :=
  isBlank_of_digitValue? (digitValue?_of_isAsciiDigit digit)

/-! ### The change of case -/

theorem toNat_ofNat_of_small {n : Nat} (small : n < 0xD800) : (Char.ofNat n).toNat = n := by
  rw [Char.ofNat, dif_pos (Or.inl small)]
  rfl

theorem toNat_asciiLower (capital : isCapital c = true) : (asciiLower c).toNat = c.toNat + 32 := by
  have bounds := isCapital_iff.mp capital
  rw [asciiLower, if_pos capital, toNat_ofNat_of_small (by omega)]

theorem toNat_asciiUpper (small : isSmall c = true) : (asciiUpper c).toNat = c.toNat - 32 := by
  have bounds := isSmall_iff.mp small
  rw [asciiUpper, if_pos small, toNat_ofNat_of_small (by omega)]

theorem asciiLower_of_not_capital (other : isCapital c = false) : asciiLower c = c := by
  rw [asciiLower, if_neg (Bool.eq_false_iff.mp other)]

theorem asciiUpper_of_not_small (other : isSmall c = false) : asciiUpper c = c := by
  rw [asciiUpper, if_neg (Bool.eq_false_iff.mp other)]

theorem isSmall_asciiLower (letter : isLetter c = true) : isSmall (asciiLower c) = true := by
  cases capital : isCapital c with
  | true =>
      have bounds := isCapital_iff.mp capital
      rw [isSmall_iff, toNat_asciiLower capital]
      omega
  | false =>
      rw [asciiLower_of_not_capital capital]
      rwa [isLetter, capital, Bool.false_or] at letter

theorem isCapital_asciiUpper (letter : isLetter c = true) : isCapital (asciiUpper c) = true := by
  cases small : isSmall c with
  | true =>
      have bounds := isSmall_iff.mp small
      rw [isCapital_iff, toNat_asciiUpper small]
      omega
  | false =>
      rw [asciiUpper_of_not_small small]
      rwa [isLetter, small, Bool.or_false] at letter

/-- What is small already stays so. -/
theorem asciiLower_asciiLower (c : Char) : asciiLower (asciiLower c) = asciiLower c := by
  cases capital : isCapital c with
  | true =>
      exact asciiLower_of_not_capital
        (isCapital_of_isSmall (isSmall_asciiLower (isLetter_of_isCapital capital)))
  | false => rw [asciiLower_of_not_capital capital, asciiLower_of_not_capital capital]

/-- A capital form has the same small form. -/
theorem asciiLower_asciiUpper (c : Char) : asciiLower (asciiUpper c) = asciiLower c := by
  cases small : isSmall c with
  | true =>
      have capital := isCapital_asciiUpper (isLetter_of_isSmall small)
      have bounds := isSmall_iff.mp small
      rw [asciiLower_of_not_capital (isCapital_of_isSmall small)]
      apply Char.toNat_inj.mp
      rw [toNat_asciiLower capital, toNat_asciiUpper small]
      omega
  | false => rw [asciiUpper_of_not_small small]

end Stencil.Text
