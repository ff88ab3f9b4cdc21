import Stencil.Text.Digit

/-!
# Character escapes

An operator may write a character as a backslash, the letter `u` and the four
hexadecimal digits of its code.  `unescape` puts the characters in place of
their escapes and leaves all other text alone.  A character beyond the sixteen
bit codes is written as the two escapes of its surrogate pair; half a pair names
no character, so an escape of one half alone stays as it is written.
-/

namespace Stencil.Text

/-- The number that four hexadecimal digits write. -/
def hexWord? (a b c d : Char) : Option Nat := do
  return (((← hexValue? a) * 16 + (← hexValue? b)) * 16 + (← hexValue? c)) * 16 +
    (← hexValue? d)

/-- Tells whether a code is the first half of a surrogate pair. -/
def isLeadingSurrogate (code : Nat) : Bool :=
  0xD800 ≤ code && code < 0xDC00

/-- Tells whether a code is the second half of a surrogate pair. -/
def isTrailingSurrogate (code : Nat) : Bool :=
  0xDC00 ≤ code && code < 0xE000

/-- The code point of a surrogate pair. -/
def pairCode (leading trailing : Nat) : Nat :=
  0x10000 + (leading - 0xD800) * 0x400 + (trailing - 0xDC00)

/-- The code of the escape that a text begins with. -/
def escapeCode? : List Char → Option Nat
  | '\\' :: 'u' :: a :: b :: c :: d :: _ => hexWord? a b c d
  | _ => none

/-- The character of the escape or pair of escapes that a text begins with, and
the number of characters that write it. -/
def escapedChar? (cs : List Char) : Option (Char × Nat) := do
  let code ← escapeCode? cs
  if isLeadingSurrogate code then
    let trailing ← escapeCode? (cs.drop 6)
    if isTrailingSurrogate trailing then some (Char.ofNat (pairCode code trailing), 12) else none
  else if isTrailingSurrogate code then none
  else some (Char.ofNat code, 6)

/-- Puts characters in place of their escapes while `pending` characters of the
escape read last are still to be passed over. -/
def unescapeFrom : Nat → List Char → List Char
  | _, [] => []
  | pending + 1, _ :: rest => unescapeFrom pending rest
  | 0, c :: rest =>
    match escapedChar? (c :: rest) with
    | some (named, width) => named :: unescapeFrom (width - 1) rest
    | none => c :: unescapeFrom 0 rest

/-- Puts characters in place of their escapes. -/
def unescape (cs : List Char) : List Char :=
  unescapeFrom 0 cs

/-- The escape of a character with a sixteen bit code. -/
def escape (c : Char) : List Char :=
  '\\' :: 'u' :: hexDigits 4 c.toNat

end Stencil.Text
