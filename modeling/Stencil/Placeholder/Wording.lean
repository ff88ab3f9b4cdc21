import Stencil.Text.Case
import Stencil.Text.Split

/-!
# Labels and display names

A tag is written for readers by parting it where a small letter meets a capital,
where a run of capitals ends before a capitalised word, and where letters meet
digits.  The label of a field keeps all its characters and gains blanks only;
decimal digits of every script count there.  The display name of a placeholder
first turns all that is no ASCII letter or digit into word breaks and then
capitalises each word.

Each rule is one pass from the left over the text.  A pass joins the characters
of one match to the next only when the match does not cover both, so after a
match of two characters the second is not looked at again.
-/

namespace Stencil.Wording

open Stencil.Text

/-- One pass that puts a blank between two neighbours of given kinds.  The second
neighbour of a pair is not taken as the first of another. -/
def partPairs (first second : Char → Bool) : List Char → List Char
  | c :: d :: rest =>
    if first c && second d then c :: ' ' :: d :: partPairs first second rest
    else c :: partPairs first second (d :: rest)
  | short => short

/-- One pass that puts a blank before the last of a run of capitals when a small
letter follows it. -/
def partCapitals : List Char → List Char
  | c :: d :: e :: rest =>
    if isCapital c && isCapital d && isSmall e then c :: ' ' :: d :: e :: partCapitals rest
    else c :: partCapitals (d :: e :: rest)
  | short => short

/-- The label of a tag: the tag with a blank at every word boundary. -/
def label (cs : List Char) : List Char :=
  partPairs isDecimal isLetter <|
    partPairs isLetter isDecimal <|
      partCapitals <|
        partPairs isSmall isCapital cs

/-- The label of a tag. -/
def labelOf (tag : String) : String :=
  mapChars label tag

/-- Turns all that is no ASCII letter or digit into a blank. -/
def blankOthers (cs : List Char) : List Char :=
  cs.map fun c => if isLetter c || isAsciiDigit c then c else ' '

/-- A word with a capital first and small letters after it. -/
def capitalise : List Char → List Char
  | [] => []
  | c :: rest => asciiUpper c :: rest.map asciiLower

/-- The display name of one segment of a tag. -/
def displayName (cs : List Char) : List Char :=
  join [' '] ((words (label (blankOthers cs))).map capitalise)

/-- The display name of one segment of a tag. -/
def displayNameOf (segment : String) : String :=
  mapChars displayName segment

end Stencil.Wording
