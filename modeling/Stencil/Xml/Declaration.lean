import Stencil.Text.Digit
import Stencil.Text.Utf8
import Stencil.Xml.Basic

/-!
# The declaration and the encoding of a document

A document may begin with a declaration of its version, its encoding and whether
it stands alone.  The bytes are decoded by the mark at their beginning, or else
by the declared encoding, or else as UTF-8.
-/

namespace Stencil.Xml

/-- What a document declares at its beginning. -/
structure Declaration where
  encoding : Option (List Char) := none
  deriving DecidableEq, Repr, Inhabited

namespace Declaration

/-- Reads the value of an item of a declaration. -/
def readItem (name : String) (cs : List Char) : Option (List Char × List Char) := do
  let rest ← afterWord name cs
  let rest ← afterWord "=" (skipSpace rest)
  readQuoted (skipSpace rest)

/-- Tells whether a version is one that can be read. -/
def isVersion : List Char → Bool
  | '1' :: '.' :: minor => !minor.isEmpty && minor.all Text.isAsciiDigit
  | _ => false

/-- Tells whether a name can be that of an encoding. -/
def isEncodingName : List Char → Bool
  | [] => false
  | c :: rest =>
    Text.isLetter c && rest.all fun d =>
      Text.isLetter d || Text.isAsciiDigit d || d == '.' || d == '_' || d == '-'

/-- Reads an item that may be left out; blanks must stand before it. -/
def readOptional (name : String) (isValue : List Char → Bool) (cs : List Char) :
    Option (Option (List Char) × List Char) :=
  if (afterWord name (skipSpace cs)).isSome then do
    let (value, rest) ← readItem name (← needSpace cs)
    if isValue value then return (some value, rest) else none
  else some (none, cs)

/-- Reads a declaration after its opening. -/
def readItems (cs : List Char) : Option (Declaration × List Char) := do
  let (version, rest) ← readItem "version" (← needSpace cs)
  if !isVersion version then none
  let (encoding, rest) ← readOptional "encoding" isEncodingName rest
  let (_, rest) ← readOptional "standalone"
    (fun value => value == "yes".toList || value == "no".toList) rest
  let rest ← afterWord "?>" (skipSpace rest)
  return ({ encoding }, rest)

/-- Reads the declaration with which a document begins, if it has one. -/
def read (cs : List Char) : Option (Declaration × List Char) :=
  match afterWord "<?xml" cs with
  | some rest => if (rest.head?.map isSpace).getD false then readItems rest else some ({}, cs)
  | none => some ({}, cs)

end Declaration

namespace Encoding

/-- The character of a byte in the encoding whose bytes are the first code points. -/
def latinChar (byte : UInt8) : Char :=
  Char.ofNat byte.toNat

/-- The code points of the bytes from 0x80 to 0x9F in the extended Western set, zero
where there is none. -/
def westernCodes : List Nat :=
  [0x20AC, 0, 0x201A, 0x0192, 0x201E, 0x2026, 0x2020, 0x2021, 0x02C6, 0x2030, 0x0160, 0x2039,
    0x0152, 0, 0x017D, 0, 0, 0x2018, 0x2019, 0x201C, 0x201D, 0x2022, 0x2013, 0x2014, 0x02DC,
    0x2122, 0x0161, 0x203A, 0x0153, 0, 0x017E, 0x0178]

/-- The character of a byte in the extended Western set. -/
def westernChar? (byte : UInt8) : Option Char :=
  if 0x80 ≤ byte.toNat && byte.toNat < 0xA0 then
    match westernCodes[byte.toNat - 0x80]? with
    | some 0 | none => none
    | some code => some (Char.ofNat code)
  else some (latinChar byte)

/-- The characters in which the ninth Latin set differs from the first. -/
def ninthLatinCodes : List (Nat × Nat) :=
  [(0xA4, 0x20AC), (0xA6, 0x160), (0xA8, 0x161), (0xB4, 0x17D), (0xB8, 0x17E), (0xBC, 0x152),
    (0xBD, 0x153), (0xBE, 0x178)]

/-- The character of a byte in the ninth Latin set. -/
def ninthLatinChar (byte : UInt8) : Char :=
  Char.ofNat ((ninthLatinCodes.lookup byte.toNat).getD byte.toNat)

/-- The character of a byte in ASCII. -/
def asciiChar? (byte : UInt8) : Option Char :=
  if byte.toNat < 0x80 then some (Char.ofNat byte.toNat) else none

/-- Reads pairs of bytes as units of sixteen bits, `unit` giving their value, and
units as characters. -/
def decodeUnits (unit : UInt8 → UInt8 → Nat) (seen : List Char) : Bytes → Option (List Char)
  | [] => some seen.reverse
  | [_] => none
  | a :: b :: rest =>
    let first := unit a b
    if 0xD800 ≤ first && first < 0xDC00 then
      match rest with
      | c :: d :: rest =>
        let second := unit c d
        if 0xDC00 ≤ second && second < 0xE000 then
          decodeUnits unit
            (Char.ofNat (0x10000 + (first - 0xD800) * 0x400 + (second - 0xDC00)) :: seen) rest
        else none
      | _ => none
    else if 0xDC00 ≤ first && first < 0xE000 then none
    else decodeUnits unit (Char.ofNat first :: seen) rest

/-- Decodes units whose low byte comes first. -/
def decodeLittle (bytes : Bytes) : Option (List Char) :=
  decodeUnits (fun a b => a.toNat + 0x100 * b.toNat) [] bytes

/-- Decodes units whose high byte comes first. -/
def decodeBig (bytes : Bytes) : Option (List Char) :=
  decodeUnits (fun a b => 0x100 * a.toNat + b.toNat) [] bytes

/-- How encodings are called, without regard to case.  A document in any other encoding is
not read. -/
def decoders : List (List String × (Bytes → Option (List Char))) :=
  [(["utf-8", "utf8"], Utf8.decode?),
    (["iso-8859-1", "iso-latin-1", "latin1", "latin-1", "iso8859-1", "iso_8859-1", "l1", "cp819"],
      fun bytes => some (bytes.map latinChar)),
    (["us-ascii", "ascii"], fun bytes => bytes.mapM asciiChar?),
    (["windows-1252", "cp1252"], fun bytes => bytes.mapM westernChar?),
    (["iso-8859-15", "iso8859-15", "iso_8859-15", "latin-9"],
      fun bytes => some (bytes.map ninthLatinChar))]

/-- Decodes bytes by the name of their encoding. -/
def decodeNamed (name : List Char) (bytes : Bytes) : Option (List Char) := do
  let small := String.ofList (name.map fun c =>
    if Text.isCapital c then Char.ofNat (c.toNat + 32) else c)
  let (_, decode) ← decoders.find? fun (names, _) => names.contains small
  decode bytes

/-- The characters of a document. -/
def decode? (bytes : Bytes) : Option (List Char) :=
  match bytes with
  | 0xEF :: 0xBB :: 0xBF :: rest => Utf8.decode? rest
  | 0xFF :: 0xFE :: rest => decodeLittle rest
  | 0xFE :: 0xFF :: rest => decodeBig rest
  | 0x3C :: 0 :: 0x3F :: 0 :: _ => decodeLittle bytes
  | 0 :: 0x3C :: 0 :: 0x3F :: _ => decodeBig bytes
  | _ =>
    match Declaration.read ((bytes.takeWhile (· != 0x3E)).map latinChar ++ ['>']) with
    | some ({ encoding := some name }, _) => decodeNamed name bytes
    | _ => Utf8.decode? bytes

end Encoding

end Stencil.Xml
