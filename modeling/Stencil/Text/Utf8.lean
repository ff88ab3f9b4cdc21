/-!
# Text as bytes

The parts of a package, catalogues and settings are stored as bytes.  `encode`
writes characters in UTF-8 and `decode?` reads them back; it refuses sequences
that are cut short, longer than needed, or stand for no character.
-/

namespace Stencil

/-- The content of a file or of a part of a package. -/
abbrev Bytes := List UInt8

namespace Utf8

/-- The byte that continues a character and carries six of its bits. -/
def continuing (n : Nat) : UInt8 :=
  UInt8.ofNat (0x80 + n % 0x40)

/-- The bytes of a character. -/
def encodeChar (c : Char) : Bytes :=
  let n := c.toNat
  if n < 0x80 then [UInt8.ofNat n]
  else if n < 0x800 then [UInt8.ofNat (0xC0 + n / 0x40), continuing n]
  else if n < 0x10000 then
    [UInt8.ofNat (0xE0 + n / 0x1000), continuing (n / 0x40), continuing n]
  else
    [UInt8.ofNat (0xF0 + n / 0x40000), continuing (n / 0x1000), continuing (n / 0x40),
      continuing n]

/-- The bytes of a text. -/
def encode (cs : List Char) : Bytes :=
  cs.flatMap encodeChar

/-- The bytes of a string. -/
def encodeString (s : String) : Bytes :=
  encode s.toList

/-- The six bits that a continuing byte carries. -/
def continued? (byte : UInt8) : Option Nat :=
  if 0x80 ≤ byte.toNat && byte.toNat < 0xC0 then some (byte.toNat - 0x80) else none

/-- The character with a code that needs as many bytes as were read. -/
def charFrom? (least code : Nat) : Option Char :=
  if h : least ≤ code ∧ code.isValidChar then some (Char.ofNatAux code h.2) else none

/-- The character of two bytes. -/
def charOfTwo? (a b : UInt8) : Option Char := do
  charFrom? 0x80 ((a.toNat - 0xC0) * 0x40 + (← continued? b))

/-- The character of three bytes. -/
def charOfThree? (a b c : UInt8) : Option Char := do
  charFrom? 0x800 ((a.toNat - 0xE0) * 0x1000 + (← continued? b) * 0x40 + (← continued? c))

/-- The character of four bytes. -/
def charOfFour? (a b c d : UInt8) : Option Char := do
  charFrom? 0x10000 ((a.toNat - 0xF0) * 0x40000 + (← continued? b) * 0x1000
    + (← continued? c) * 0x40 + (← continued? d))

/-- Reads characters, the last one first onto those that were seen. -/
def decodeFrom (seen : List Char) : Bytes → Option (List Char)
  | [] => some seen.reverse
  | a :: rest =>
    if a.toNat < 0x80 then decodeFrom (Char.ofNat a.toNat :: seen) rest
    else if a.toNat < 0xC0 then none
    else
      match rest with
      | [] => none
      | b :: rest =>
        if a.toNat < 0xE0 then
          match charOfTwo? a b with
          | some read => decodeFrom (read :: seen) rest
          | none => none
        else
          match rest with
          | [] => none
          | c :: rest =>
            if a.toNat < 0xF0 then
              match charOfThree? a b c with
              | some read => decodeFrom (read :: seen) rest
              | none => none
            else
              match rest with
              | [] => none
              | d :: rest =>
                match charOfFour? a b c d with
                | some read => decodeFrom (read :: seen) rest
                | none => none

/-- The characters that bytes stand for. -/
def decode? (bytes : Bytes) : Option (List Char) :=
  decodeFrom [] bytes

/-- The string that bytes stand for. -/
def decodeString? (bytes : Bytes) : Option String :=
  (decode? bytes).map String.ofList

/-- The three bytes that may stand in front of a text to mark its encoding. -/
def mark : Bytes := [0xEF, 0xBB, 0xBF]

end Utf8

end Stencil
