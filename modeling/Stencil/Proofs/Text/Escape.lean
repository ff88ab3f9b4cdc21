import Stencil.Proofs.Text.Letter
import Stencil.Text.Escape

/-!
# Texts written with escapes

A text can be written with escapes in the place of any of its characters that have a sixteen bit
code, and has to be where it holds a backslash.  `Spells` is all the ways to write it.  Reading takes
off what was written for one character at a time and gives that character, which is not looked at
again: neither together with what was read before nor with what stands behind.
-/

namespace Stencil.Text

/-- The ways to write a text: each character stands as it is, or its escape with digits in capital
or small letters; a backslash is always escaped. -/
inductive Spells : (text written : List Char) → Prop where
  | nil : Spells [] []
  | plain {c : Char} {text written : List Char} (notMark : c ≠ '\\') (rest : Spells text written) :
      Spells (c :: text) (c :: written)
  | escaped {c : Char} {digits text written : List Char} (short : c.toNat < 0x10000)
      (digits_eq : '\\' :: 'u' :: digits.map asciiLower = escape c) (rest : Spells text written) :
      Spells (c :: text) ('\\' :: 'u' :: (digits ++ written))

/-! ### The digits of an escape -/

theorem hexValue?_eq (c : Char) :
    hexValue? c =
      if 48 ≤ c.toNat ∧ c.toNat ≤ 57 then some (c.toNat - 48)
      else if 97 ≤ c.toNat ∧ c.toNat ≤ 102 then some (c.toNat - 97 + 10)
      else if 65 ≤ c.toNat ∧ c.toNat ≤ 70 then some (c.toNat - 65 + 10)
      else none := by
  simp only [hexValue?, isAsciiDigit_iff, Bool.and_eq_true, decide_eq_true_eq, char_le_iff,
    Char.reduceToNat]

/-- A digit has one value in capital and small letters. -/
theorem hexValue?_asciiLower (c : Char) : hexValue? (asciiLower c) = hexValue? c := by
  cases capital : isCapital c with
  | false => rw [asciiLower_of_not_capital capital]
  | true =>
      have bounds := isCapital_iff.mp capital
      rw [hexValue?_eq, hexValue?_eq, toNat_asciiLower capital]
      grind

theorem hexValue?_hexDigit : ∀ n < 16, hexValue? (hexDigit n) = some n := by
  decide

/-- What is written for a digit has its value. -/
theorem hexValue?_of_asciiLower {c : Char} {n : Nat} (digit_eq : asciiLower c = hexDigit (n % 16)) :
    hexValue? c = some (n % 16) := by
  rw [← hexValue?_asciiLower, digit_eq, hexValue?_hexDigit _ (Nat.mod_lt n (by decide))]

/-- The digits of an escape write the code of its character. -/
theorem escapeCode?_of_digits {c : Char} {digits : List Char} (short : c.toNat < 0x10000)
    (digits_eq : '\\' :: 'u' :: digits.map asciiLower = escape c) (behind : List Char) :
    digits.length = 4 ∧ escapeCode? ('\\' :: 'u' :: (digits ++ behind)) = some c.toNat := by
  have lower_eq : digits.map asciiLower = hexDigits 4 c.toNat := by
    simpa only [escape, List.cons.injEq, true_and] using digits_eq
  simp only [hexDigits, List.nil_append, List.cons_append] at lower_eq
  obtain ⟨first, _, rfl, first_eq, lower_eq⟩ := List.map_eq_cons_iff.mp lower_eq
  obtain ⟨second, _, rfl, second_eq, lower_eq⟩ := List.map_eq_cons_iff.mp lower_eq
  obtain ⟨third, _, rfl, third_eq, lower_eq⟩ := List.map_eq_cons_iff.mp lower_eq
  obtain ⟨fourth, _, rfl, fourth_eq, lower_eq⟩ := List.map_eq_cons_iff.mp lower_eq
  obtain rfl := List.map_eq_nil_iff.mp lower_eq
  refine ⟨rfl, ?_⟩
  change hexWord? first second third fourth = some c.toNat
  rw [hexWord?, hexValue?_of_asciiLower first_eq, hexValue?_of_asciiLower second_eq,
    hexValue?_of_asciiLower third_eq, hexValue?_of_asciiLower fourth_eq]
  change some _ = some _
  congr 1
  omega

/-- A character is no half of a surrogate pair. -/
theorem not_isSurrogate (c : Char) :
    isLeadingSurrogate c.toNat = false ∧ isTrailingSurrogate c.toNat = false := by
  have valid : c.toNat < 0xD800 ∨ 0xDFFF < c.toNat ∧ c.toNat < 0x110000 := c.valid
  simp only [isLeadingSurrogate, isTrailingSurrogate, Bool.and_eq_false_iff,
    decide_eq_false_iff_not]
  omega

theorem escapedChar?_of_digits {c : Char} {digits : List Char} (short : c.toNat < 0x10000)
    (digits_eq : '\\' :: 'u' :: digits.map asciiLower = escape c) (behind : List Char) :
    escapedChar? ('\\' :: 'u' :: (digits ++ behind)) = some (c, 6) := by
  obtain ⟨_, code_eq⟩ := escapeCode?_of_digits short digits_eq behind
  obtain ⟨notLeading, notTrailing⟩ := not_isSurrogate c
  simp [escapedChar?, code_eq, notLeading, notTrailing]

/-! ### Reading what was written -/

/-- What is still to be passed over is passed over. -/
theorem unescapeFrom_append (passed behind : List Char) :
    unescapeFrom passed.length (passed ++ behind) = unescape behind := by
  induction passed with
  | nil => rfl
  | cons c passed ih => rw [List.length_cons, List.cons_append, unescapeFrom, ih]

theorem unescape_cons_of_ne {c : Char} (notMark : c ≠ '\\') (behind : List Char) :
    unescape (c :: behind) = c :: unescape behind := by
  have noEscape : escapedChar? (c :: behind) = none := by
    have noCode : escapeCode? (c :: behind) = none := by
      unfold escapeCode?
      split
      · next begins =>
          rw [List.cons.injEq] at begins
          exact absurd begins.1 notMark
      · rfl
    rw [escapedChar?, noCode]
    rfl
  rw [unescape, unescapeFrom, noEscape]
  rfl

/-- An escape is read as its character, and reading goes on behind it. -/
theorem unescape_escape_append {c : Char} {digits : List Char} (short : c.toNat < 0x10000)
    (digits_eq : '\\' :: 'u' :: digits.map asciiLower = escape c) (behind : List Char) :
    unescape ('\\' :: 'u' :: (digits ++ behind)) = c :: unescape behind := by
  have width : ('u' :: digits).length = 6 - 1 := by
    rw [List.length_cons, (escapeCode?_of_digits short digits_eq behind).1]
  rw [unescape, unescapeFrom, escapedChar?_of_digits short digits_eq]
  change c :: unescapeFrom (6 - 1) ('u' :: digits ++ behind) = _
  rw [← width, unescapeFrom_append]

/-- What was written for a text is read as that text, whatever stands behind. -/
theorem Spells.unescape_append {text written : List Char} (spells : Spells text written)
    (behind : List Char) : unescape (written ++ behind) = text ++ unescape behind := by
  induction spells with
  | nil => rfl
  | plain notMark _ ih => rw [List.cons_append, unescape_cons_of_ne notMark, ih, List.cons_append]
  | escaped short digits_eq _ ih =>
      rw [List.cons_append, List.cons_append, List.append_assoc,
        unescape_escape_append short digits_eq, ih, List.cons_append]

end Stencil.Text
