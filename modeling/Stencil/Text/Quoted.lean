import Stencil.Text.Digit
import Stencil.Text.Printable

/-!
# Quoted text

The form in which a text is shown inside a message or a list.  It stands between
single quotes, or between double quotes when it holds a single quote and no
double one.  The quote, the backslash and every character without a visible form
are escaped.
-/

namespace Stencil.Text

/-- The quote that a text is shown between. -/
def quoteFor (cs : List Char) : Char :=
  if cs.contains '\'' && !cs.contains '"' then '"' else '\''

/-- One character as it is shown between the given quotes. -/
def quotedChar (quote c : Char) : List Char :=
  if c == quote || c == '\\' then ['\\', c]
  else if c == '\n' then ['\\', 'n']
  else if c == '\r' then ['\\', 'r']
  else if c == '\t' then ['\\', 't']
  else if isPrintable c then [c]
  else if c.toNat < 0x100 then '\\' :: 'x' :: hexDigits 2 c.toNat
  else if c.toNat < 0x10000 then '\\' :: 'u' :: hexDigits 4 c.toNat
  else '\\' :: 'U' :: hexDigits 8 c.toNat

/-- A text between quotes. -/
def quotedChars (cs : List Char) : List Char :=
  let quote := quoteFor cs
  quote :: cs.flatMap (quotedChar quote) ++ [quote]

/-- A string between quotes. -/
def quoted (s : String) : String :=
  String.ofList (quotedChars s.toList)

end Stencil.Text
