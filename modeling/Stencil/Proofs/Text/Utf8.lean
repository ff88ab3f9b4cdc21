import Mathlib.Data.List.Infix
import Stencil.Proofs.Text.Replace
import Stencil.Text.Utf8

/-!
# Texts and their bytes

Bytes are read as a text exactly when they are the bytes of that text.  The bytes of a
character begin with one that continues no character, so a text stands in another one
exactly where its bytes stand in the bytes of the other.
-/

namespace Stencil.Utf8

theorem toNat_continuing (n : Nat) : (continuing n).toNat = 0x80 + n % 0x40 := by
  rw [continuing, UInt8.toNat_ofNat']
  omega

theorem continuing_mod (n : Nat) : continuing (n % 0x40) = continuing n := by
  rw [continuing, Nat.mod_mod, continuing]

theorem continued?_continuing (n : Nat) : continued? (continuing n) = some (n % 0x40) := by
  simp [continued?, toNat_continuing]
  omega

theorem continued?_eq_some_iff {byte : UInt8} {bits : Nat} :
    continued? byte = some bits ↔ bits < 0x40 ∧ byte = continuing bits := by
  constructor
  · intro read
    simp only [continued?, Bool.and_eq_true, decide_eq_true_eq, Option.ite_none_right_eq_some,
      Option.some.injEq] at read
    refine ⟨by omega, UInt8.toNat_inj.mp ?_⟩
    rw [toNat_continuing]
    omega
  · rintro ⟨small, rfl⟩
    rw [continued?_continuing, Nat.mod_eq_of_lt small]

/-- A character is read from its code when the code needs as many bytes as were read. -/
theorem charFrom?_eq_some_iff {least code : Nat} {c : Char} :
    charFrom? least code = some c ↔ least ≤ code ∧ code = c.toNat := by
  by_cases holds : least ≤ code ∧ code.isValidChar
  · rw [charFrom?, dif_pos holds, Option.some.injEq, and_iff_right holds.1]
    constructor
    · rintro rfl
      rfl
    · rintro rfl
      exact Char.toNat_inj.mp rfl
  · rw [charFrom?, dif_neg holds]
    refine iff_of_false (Option.some_ne_none c).symm ?_
    rintro ⟨le, rfl⟩
    exact holds ⟨le, c.valid⟩

theorem toNat_lt (c : Char) : c.toNat < 0x110000 := by
  have := c.valid
  unfold UInt32.isValidChar Nat.isValidChar at this
  change c.val.toNat < _
  omega

/-- A byte is the leading one with these bits. -/
theorem eq_ofNat_add {byte : UInt8} {mark bits : Nat} (least : mark ≤ byte.toNat)
    (bits_eq : bits = byte.toNat - mark) : UInt8.ofNat (mark + bits) = byte := by
  rw [bits_eq, Nat.add_sub_cancel' least, UInt8.ofNat_toNat]

theorem charOfTwo?_eq_some_iff {a b : UInt8} {c : Char} (least : 0xC0 ≤ a.toNat)
    (most : a.toNat < 0xE0) : charOfTwo? a b = some c ↔
      0x80 ≤ c.toNat ∧ c.toNat < 0x800 ∧ encodeChar c = [a, b] := by
  constructor
  · intro read
    obtain ⟨bits, bits_eq, code_eq⟩ := Option.bind_eq_some_iff.mp read
    obtain ⟨small, rfl⟩ := continued?_eq_some_iff.mp bits_eq
    obtain ⟨low, code_eq⟩ := charFrom?_eq_some_iff.mp code_eq
    have high : c.toNat < 0x800 := by omega
    refine ⟨by omega, high, ?_⟩
    have rest : bits = c.toNat % 0x40 := by omega
    simp only [encodeChar, if_neg (show ¬ c.toNat < 0x80 by omega), if_pos high,
      eq_ofNat_add least (show c.toNat / 0x40 = a.toNat - 0xC0 by omega), rest, continuing_mod]
  · rintro ⟨low, high, bytes_eq⟩
    simp only [encodeChar, if_neg (show ¬ c.toNat < 0x80 by omega), if_pos high,
      List.cons.injEq, and_true] at bytes_eq
    obtain ⟨rfl, rfl⟩ := bytes_eq
    refine Option.bind_eq_some_iff.mpr ⟨_, continued?_continuing _, ?_⟩
    rw [charFrom?_eq_some_iff, UInt8.toNat_ofNat']
    omega

theorem charOfThree?_eq_some_iff {a b c : UInt8} {char : Char} (least : 0xE0 ≤ a.toNat)
    (most : a.toNat < 0xF0) : charOfThree? a b c = some char ↔
      0x800 ≤ char.toNat ∧ char.toNat < 0x10000 ∧ encodeChar char = [a, b, c] := by
  constructor
  · intro read
    obtain ⟨first, first_eq, read⟩ := Option.bind_eq_some_iff.mp read
    obtain ⟨second, second_eq, code_eq⟩ := Option.bind_eq_some_iff.mp read
    obtain ⟨firstSmall, rfl⟩ := continued?_eq_some_iff.mp first_eq
    obtain ⟨secondSmall, rfl⟩ := continued?_eq_some_iff.mp second_eq
    obtain ⟨low, code_eq⟩ := charFrom?_eq_some_iff.mp code_eq
    have high : char.toNat < 0x10000 := by omega
    refine ⟨by omega, high, ?_⟩
    have firstRest : first = char.toNat / 0x40 % 0x40 := by omega
    have secondRest : second = char.toNat % 0x40 := by omega
    simp only [encodeChar, if_neg (show ¬ char.toNat < 0x80 by omega),
      if_neg (show ¬ char.toNat < 0x800 by omega), if_pos high,
      eq_ofNat_add least (show char.toNat / 0x1000 = a.toNat - 0xE0 by omega), firstRest,
      secondRest, continuing_mod]
  · rintro ⟨low, high, bytes_eq⟩
    simp only [encodeChar, if_neg (show ¬ char.toNat < 0x80 by omega),
      if_neg (show ¬ char.toNat < 0x800 by omega), if_pos high,
      List.cons.injEq, and_true] at bytes_eq
    obtain ⟨rfl, rfl, rfl⟩ := bytes_eq
    refine Option.bind_eq_some_iff.mpr ⟨_, continued?_continuing _, ?_⟩
    refine Option.bind_eq_some_iff.mpr ⟨_, continued?_continuing _, ?_⟩
    rw [charFrom?_eq_some_iff, UInt8.toNat_ofNat']
    omega

theorem charOfFour?_eq_some_iff {a b c d : UInt8} {char : Char} (least : 0xF0 ≤ a.toNat) :
    charOfFour? a b c d = some char ↔ 0x10000 ≤ char.toNat ∧ encodeChar char = [a, b, c, d] := by
  have most := toNat_lt char
  constructor
  · intro read
    obtain ⟨first, first_eq, read⟩ := Option.bind_eq_some_iff.mp read
    obtain ⟨second, second_eq, read⟩ := Option.bind_eq_some_iff.mp read
    obtain ⟨third, third_eq, code_eq⟩ := Option.bind_eq_some_iff.mp read
    obtain ⟨firstSmall, rfl⟩ := continued?_eq_some_iff.mp first_eq
    obtain ⟨secondSmall, rfl⟩ := continued?_eq_some_iff.mp second_eq
    obtain ⟨thirdSmall, rfl⟩ := continued?_eq_some_iff.mp third_eq
    obtain ⟨low, code_eq⟩ := charFrom?_eq_some_iff.mp code_eq
    refine ⟨by omega, ?_⟩
    have firstRest : first = char.toNat / 0x1000 % 0x40 := by omega
    have secondRest : second = char.toNat / 0x40 % 0x40 := by omega
    have thirdRest : third = char.toNat % 0x40 := by omega
    simp only [encodeChar, if_neg (show ¬ char.toNat < 0x80 by omega),
      if_neg (show ¬ char.toNat < 0x800 by omega), if_neg (show ¬ char.toNat < 0x10000 by omega),
      eq_ofNat_add least (show char.toNat / 0x40000 = a.toNat - 0xF0 by omega), firstRest,
      secondRest, thirdRest, continuing_mod]
  · rintro ⟨low, bytes_eq⟩
    simp only [encodeChar, if_neg (show ¬ char.toNat < 0x80 by omega),
      if_neg (show ¬ char.toNat < 0x800 by omega), if_neg (show ¬ char.toNat < 0x10000 by omega),
      List.cons.injEq, and_true] at bytes_eq
    obtain ⟨rfl, rfl, rfl, rfl⟩ := bytes_eq
    refine Option.bind_eq_some_iff.mpr ⟨_, continued?_continuing _, ?_⟩
    refine Option.bind_eq_some_iff.mpr ⟨_, continued?_continuing _, ?_⟩
    refine Option.bind_eq_some_iff.mpr ⟨_, continued?_continuing _, ?_⟩
    rw [charFrom?_eq_some_iff, UInt8.toNat_ofNat']
    omega

theorem encodeChar_of_small {byte : UInt8} (small : byte.toNat < 0x80) :
    encodeChar (Char.ofNat byte.toNat) = [byte] := by
  have code_eq : (Char.ofNat byte.toNat).toNat = byte.toNat := by
    rw [Char.ofNat, dif_pos (Or.inl (by omega))]
    rfl
  rw [encodeChar, code_eq, if_pos small, UInt8.ofNat_toNat]

theorem encode_cons (c : Char) (cs : List Char) : encode (c :: cs) = encodeChar c ++ encode cs :=
  rfl

theorem encode_append (first second : List Char) :
    encode (first ++ second) = encode first ++ encode second :=
  List.flatMap_append

theorem decodeFrom_of_two {a b : UInt8} {c : Char} (least : 0xC0 ≤ a.toNat)
    (most : a.toNat < 0xE0) (read : charOfTwo? a b = some c) (seen : List Char) (rest : Bytes) :
    decodeFrom seen (a :: b :: rest) = decodeFrom (c :: seen) rest := by
  rw [decodeFrom.eq_def]
  simp only [if_neg (show ¬ a.toNat < 0x80 by omega), if_neg (show ¬ a.toNat < 0xC0 by omega),
    if_pos most, read]

theorem decodeFrom_of_three {a b c : UInt8} {char : Char} (least : 0xE0 ≤ a.toNat)
    (most : a.toNat < 0xF0) (read : charOfThree? a b c = some char) (seen : List Char)
    (rest : Bytes) : decodeFrom seen (a :: b :: c :: rest) = decodeFrom (char :: seen) rest := by
  rw [decodeFrom.eq_def]
  simp only [if_neg (show ¬ a.toNat < 0x80 by omega), if_neg (show ¬ a.toNat < 0xC0 by omega),
    if_neg (show ¬ a.toNat < 0xE0 by omega), if_pos most, read]

theorem decodeFrom_of_four {a b c d : UInt8} {char : Char} (least : 0xF0 ≤ a.toNat)
    (read : charOfFour? a b c d = some char) (seen : List Char) (rest : Bytes) :
    decodeFrom seen (a :: b :: c :: d :: rest) = decodeFrom (char :: seen) rest := by
  rw [decodeFrom.eq_def]
  simp only [if_neg (show ¬ a.toNat < 0x80 by omega), if_neg (show ¬ a.toNat < 0xC0 by omega),
    if_neg (show ¬ a.toNat < 0xE0 by omega), if_neg (show ¬ a.toNat < 0xF0 by omega), read]

theorem toNat_ofNat_of_lt {n : Nat} (small : n < 0x100) : (UInt8.ofNat n).toNat = n := by
  rw [UInt8.toNat_ofNat']
  omega

/-- The character whose bytes come first is read first. -/
theorem decodeFrom_encodeChar_append (seen : List Char) (c : Char) (rest : Bytes) :
    decodeFrom seen (encodeChar c ++ rest) = decodeFrom (c :: seen) rest := by
  have most := toNat_lt c
  -- by the number of bytes
  by_cases one : c.toNat < 0x80
  · have lead_eq := toNat_ofNat_of_lt (n := c.toNat) (by omega)
    rw [encodeChar, if_pos one, decodeFrom.eq_def]
    simp only [List.singleton_append, lead_eq, if_pos one, Char.ofNat_toNat]
  by_cases two : c.toNat < 0x800
  · have bytes_eq : encodeChar c =
        [UInt8.ofNat (0xC0 + c.toNat / 0x40), continuing c.toNat] := by
      simp only [encodeChar, if_neg one, if_pos two]
    have lead_eq := toNat_ofNat_of_lt (n := 0xC0 + c.toNat / 0x40) (by omega)
    have read := (charOfTwo?_eq_some_iff (by omega) (by omega)).mpr ⟨by omega, two, bytes_eq⟩
    rw [bytes_eq]
    exact decodeFrom_of_two (by omega) (by omega) read seen rest
  by_cases three : c.toNat < 0x10000
  · have bytes_eq : encodeChar c = [UInt8.ofNat (0xE0 + c.toNat / 0x1000),
        continuing (c.toNat / 0x40), continuing c.toNat] := by
      simp only [encodeChar, if_neg one, if_neg two, if_pos three]
    have lead_eq := toNat_ofNat_of_lt (n := 0xE0 + c.toNat / 0x1000) (by omega)
    have read := (charOfThree?_eq_some_iff (by omega) (by omega)).mpr ⟨by omega, three, bytes_eq⟩
    rw [bytes_eq]
    exact decodeFrom_of_three (by omega) (by omega) read seen rest
  · have bytes_eq : encodeChar c = [UInt8.ofNat (0xF0 + c.toNat / 0x40000),
        continuing (c.toNat / 0x1000), continuing (c.toNat / 0x40), continuing c.toNat] := by
      simp only [encodeChar, if_neg one, if_neg two, if_neg three]
    have lead_eq := toNat_ofNat_of_lt (n := 0xF0 + c.toNat / 0x40000) (by omega)
    have read := (charOfFour?_eq_some_iff (by omega)).mpr ⟨by omega, bytes_eq⟩
    rw [bytes_eq]
    exact decodeFrom_of_four (by omega) read seen rest

theorem decodeFrom_encode_append (seen cs : List Char) (rest : Bytes) :
    decodeFrom seen (encode cs ++ rest) = decodeFrom (cs.reverse ++ seen) rest := by
  induction cs generalizing seen with
  | nil => rfl
  | cons c cs ih =>
      rw [encode_cons, List.append_assoc, decodeFrom_encodeChar_append, ih, List.reverse_cons,
        List.append_assoc, List.singleton_append]

/-- Bytes read to a text behind what was seen. -/
def ReadsBehind (seen text : List Char) (bytes : Bytes) : Prop :=
  ∃ cs, text = seen.reverse ++ cs ∧ encode cs = bytes

theorem ReadsBehind.of_cons {seen text : List Char} {c : Char} {bytes rest : Bytes}
    (reads : ReadsBehind (c :: seen) text rest) (bytes_eq : encodeChar c = bytes) :
    ReadsBehind seen text (bytes ++ rest) := by
  obtain ⟨cs, rfl, rfl⟩ := reads
  exact ⟨c :: cs, by simp, by rw [encode_cons, bytes_eq]⟩

theorem readsBehind_of_decodeFrom {seen text : List Char} {bytes : Bytes}
    (read : decodeFrom seen bytes = some text) : ReadsBehind seen text bytes := by
  fun_induction decodeFrom seen bytes with
  | case1 seen =>
      cases read
      exact ⟨[], by simp, rfl⟩
  | case2 seen byte rest small ih => exact (ih read).of_cons (encodeChar_of_small small)
  | case5 seen a notOne notInner b rest two c found ih =>
      exact (ih read).of_cons ((charOfTwo?_eq_some_iff (by omega) two).mp found).2.2
  | case8 seen a notOne notInner b notTwo c rest three char found ih =>
      exact (ih read).of_cons ((charOfThree?_eq_some_iff (by omega) three).mp found).2.2
  | case11 seen a notOne notInner b notTwo c notThree d rest char found ih =>
      exact (ih read).of_cons ((charOfFour?_eq_some_iff (by omega)).mp found).2
  | case3 | case4 | case6 | case7 | case9 | case10 | case12 => cases read

/-- Bytes are read as a text exactly when they are the bytes of the text. -/
theorem decode?_eq_some_iff {bytes : Bytes} {text : List Char} :
    decode? bytes = some text ↔ encode text = bytes := by
  constructor
  · intro read
    obtain ⟨cs, rfl, bytes_eq⟩ := readsBehind_of_decodeFrom read
    exact bytes_eq
  · rintro rfl
    have read := decodeFrom_encode_append [] text []
    rw [List.append_nil, List.append_nil] at read
    rw [decode?, read, decodeFrom, List.reverse_reverse]

/-- A byte that continues a character. -/
def IsContinuing (byte : UInt8) : Prop :=
  0x80 ≤ byte.toNat ∧ byte.toNat < 0xC0

theorem isContinuing_continuing (n : Nat) : IsContinuing (continuing n) := by
  rw [IsContinuing, toNat_continuing]
  omega

/-- Only the first byte of a character does not continue it. -/
theorem exists_encodeChar_eq_cons (c : Char) :
    ∃ lead others, encodeChar c = lead :: others ∧ ¬IsContinuing lead ∧
      ∀ byte ∈ others, IsContinuing byte := by
  have most := toNat_lt c
  by_cases one : c.toNat < 0x80
  · refine ⟨UInt8.ofNat c.toNat, [], by simp only [encodeChar, if_pos one], ?_, by simp⟩
    rw [IsContinuing, toNat_ofNat_of_lt (by omega)]
    omega
  by_cases two : c.toNat < 0x800
  · refine ⟨_, _, by simp only [encodeChar, if_neg one, if_pos two]; rfl, ?_, ?_⟩
    · rw [IsContinuing, toNat_ofNat_of_lt (by omega)]
      omega
    · simp [isContinuing_continuing]
  by_cases three : c.toNat < 0x10000
  · refine ⟨_, _, by simp only [encodeChar, if_neg one, if_neg two, if_pos three]; rfl, ?_, ?_⟩
    · rw [IsContinuing, toNat_ofNat_of_lt (by omega)]
      omega
    · simp [isContinuing_continuing]
  · refine ⟨_, _, by simp only [encodeChar, if_neg one, if_neg two, if_neg three]; rfl, ?_, ?_⟩
    · rw [IsContinuing, toNat_ofNat_of_lt (by omega)]
      omega
    · simp [isContinuing_continuing]

/-- Bytes that begin with those of a text are read as a text that begins with it. -/
theorem encode_prefix_encode_iff {first second : List Char} :
    encode first <+: encode second ↔ first <+: second := by
  constructor
  · rintro ⟨rest, bytes_eq⟩
    have read : decodeFrom [] (encode first ++ rest) = some second :=
      decode?_eq_some_iff.mpr bytes_eq.symm
    rw [decodeFrom_encode_append, List.append_nil] at read
    obtain ⟨cs, rfl, _⟩ := readsBehind_of_decodeFrom read
    rw [List.reverse_reverse]
    exact List.prefix_append first cs
  · rintro ⟨rest, rfl⟩
    rw [encode_append]
    exact List.prefix_append _ _

/-- The bytes of a text do not begin within a character. -/
theorem not_prefix_of_continuing {pattern : List Char} (filled : pattern ≠ []) {bytes rest : Bytes}
    (continuing : ∀ byte ∈ bytes, IsContinuing byte) (someByte : bytes ≠ []) :
    ¬encode pattern <+: bytes ++ rest := by
  rcases List.exists_cons_of_ne_nil filled with ⟨c, others, rfl⟩
  rcases List.exists_cons_of_ne_nil someByte with ⟨byte, bytes, rfl⟩
  obtain ⟨lead, inner, char_eq, isLead, _⟩ := exists_encodeChar_eq_cons c
  rw [encode_cons, char_eq, List.cons_append, List.cons_append, List.cons_prefix_cons]
  rintro ⟨rfl, _⟩
  exact isLead (continuing lead List.mem_cons_self)

/-- The bytes of a text stand in those of another one only where the text stands. -/
theorem infix_of_encode_infix {pattern text : List Char} (filled : pattern ≠ [])
    (stands : encode pattern <:+: encode text) : pattern <:+: text := by
  induction text with
  | nil =>
      rcases List.exists_cons_of_ne_nil filled with ⟨c, others, rfl⟩
      obtain ⟨lead, inner, char_eq, _⟩ := exists_encodeChar_eq_cons c
      rw [encode_cons, char_eq] at stands
      cases List.infix_nil.mp stands
  | cons c rest ih =>
      obtain ⟨lead, inner, char_eq, _, innerContinuing⟩ := exists_encodeChar_eq_cons c
      suffices encode pattern <+: encode (c :: rest) ∨ encode pattern <:+: encode rest by
        rcases this with here | later
        · exact (encode_prefix_encode_iff.mp here).isInfix
        · exact (ih later).trans (List.suffix_cons c rest).isInfix
      rw [encode_cons, char_eq] at stands ⊢
      rcases List.infix_cons_iff.mp stands with here | later
      · exact .inl here
      · right
        clear stands char_eq
        induction inner with
        | nil => exact later
        | cons byte inner ih =>
            rcases List.infix_cons_iff.mp later with here | later
            · exact absurd here (not_prefix_of_continuing filled innerContinuing (by simp))
            · exact ih (List.forall_mem_cons.mp innerContinuing).2 later

theorem encode_join (separator : List Char) (pieces : List (List Char)) :
    encode (Text.join separator pieces) =
      Text.join (encode separator) (pieces.map encode) := by
  induction pieces with
  | nil => rfl
  | cons piece pieces ih =>
      cases pieces with
      | nil => rfl
      | cons next pieces =>
          rw [Text.join_cons_of_ne_nil (List.cons_ne_nil next pieces), encode_append,
            encode_append, ih]
          exact (Text.join_cons_of_ne_nil (by simp)).symm

end Stencil.Utf8
