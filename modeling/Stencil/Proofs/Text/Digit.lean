import Mathlib.Data.List.Induction
import Stencil.Text.Blank
import Stencil.Text.Digit

/-!
# Digits and numbers

A digit of any script has a value below ten and is no blank.  The number that digits write is read
from the left, one digit at a time.
-/

namespace Stencil.Text

theorem char_le_iff {c d : Char} : c ≤ d ↔ c.toNat ≤ d.toNat := by
  rw [Char.le_def, UInt32.le_iff_toNat_le]
  rfl

theorem isAsciiDigit_iff {c : Char} : isAsciiDigit c = true ↔ 48 ≤ c.toNat ∧ c.toNat ≤ 57 := by
  simp only [isAsciiDigit, Bool.and_eq_true, decide_eq_true_eq, char_le_iff]
  rfl

theorem digitValue?_of_isAsciiDigit {c : Char} (digit : isAsciiDigit c = true) :
    digitValue? c = some (c.toNat - 48) := by
  have bounds := isAsciiDigit_iff.mp digit
  have found : zeroDigits.find? (fun first => first ≤ c.toNat && c.toNat < first + 10) = some 48 := by
    rw [zeroDigits, List.find?_cons_of_pos]
    simp only [Bool.and_eq_true, decide_eq_true_eq]
    omega
  rw [digitValue?, found, Option.map_some]

theorem exists_of_digitValue? {c : Char} {value : Nat} (found : digitValue? c = some value) :
    ∃ first ∈ zeroDigits, c.toNat = first + value ∧ value < 10 := by
  obtain ⟨first, first_eq, rfl⟩ := Option.map_eq_some_iff.mp found
  have bounds := List.find?_some first_eq
  simp only [Bool.and_eq_true, decide_eq_true_eq] at bounds
  exact ⟨first, List.mem_of_find?_eq_some first_eq, by omega, by omega⟩

theorem digitValue?_lt {c : Char} {value : Nat} (found : digitValue? c = some value) :
    value < 10 := by
  obtain ⟨_, _, _, small⟩ := exists_of_digitValue? found
  exact small

/-- The digits of all scripts lie between the blanks. -/
theorem zeroDigits_apart : ∀ first ∈ zeroDigits,
    33 ≤ first ∧ first + 10 ≤ 0x85 ∨ 0xA0 < first ∧ first + 10 ≤ 0x1680 ∨
      0x1680 < first ∧ first + 10 ≤ 0x2000 ∨ 0x3000 < first := by
  decide

theorem isBlank_of_digitValue? {c : Char} {value : Nat} (found : digitValue? c = some value) :
    isBlank c = false := by
  obtain ⟨first, firstMem, code_eq, small⟩ := exists_of_digitValue? found
  have apart := zeroDigits_apart first firstMem
  simp only [isBlank, Bool.or_eq_false_iff, Bool.and_eq_false_iff, decide_eq_false_iff_not,
    beq_eq_false_iff_ne]
  omega

/-- The number that digits write, with one more digit behind them. -/
theorem decimalValue?_concat (cs : List Char) (c : Char) :
    decimalValue? (cs ++ [c]) =
      (decimalValue? cs).bind fun value => (digitValue? c).map fun digit => 10 * value + digit := by
  rw [decimalValue?, List.foldl_append, ← decimalValue?]
  cases decimalValue? cs with
  | none => rfl
  | some value => cases found : digitValue? c <;> simp [found]

theorem decimalValue?_singleton (c : Char) : decimalValue? [c] = digitValue? c := by
  simp [decimalValue?]

theorem decimalValue?_pair (c d : Char) :
    decimalValue? [c, d] =
      (digitValue? c).bind fun tens => (digitValue? d).map fun units => 10 * tens + units := by
  rw [← decimalValue?_singleton]
  exact decimalValue?_concat [c] d

/-- What writes a number is digits only. -/
theorem exists_digitValue?_of_mem {cs : List Char} {value : Nat}
    (read : decimalValue? cs = some value) : ∀ c ∈ cs, ∃ digit, digitValue? c = some digit := by
  induction cs using List.reverseRecOn generalizing value with
  | nil => simp
  | append_singleton cs d ih =>
      rw [decimalValue?_concat, Option.bind_eq_some_iff] at read
      obtain ⟨front, front_eq, read⟩ := read
      obtain ⟨digit, digit_eq, _⟩ := Option.map_eq_some_iff.mp read
      intro c cMem
      rcases List.mem_append.mp cMem with inFront | last
      · exact ih front_eq c inFront
      · exact ⟨digit, List.mem_singleton.mp last ▸ digit_eq⟩

theorem isBlank_of_decimalValue? {cs : List Char} {value : Nat}
    (read : decimalValue? cs = some value) : ∀ c ∈ cs, isBlank c = false := by
  intro c cMem
  obtain ⟨digit, digit_eq⟩ := exists_digitValue?_of_mem read c cMem
  exact isBlank_of_digitValue? digit_eq

/-! ### Digits of a number -/

theorem isAsciiDigit_hexDigit : ∀ n < 10, isAsciiDigit (hexDigit n) = true := by
  decide

theorem digitValue?_hexDigit : ∀ n < 10, digitValue? (hexDigit n) = some n := by
  decide

end Stencil.Text
