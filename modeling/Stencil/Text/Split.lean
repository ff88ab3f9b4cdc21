import Stencil.Text.Blank

/-!
# Splitting and replacing

Cutting a list at the elements that satisfy a test, and replacing a run of
elements.  Everything here is structural recursion on the list that is read, so
a replacement keeps count of the elements it still has to pass over.
-/

namespace Stencil.Text

/-- Cuts a list at every element that satisfies the test.  The result has one
piece more than there are such elements. -/
def splitWhere {α : Type} (test : α → Bool) : List α → List (List α)
  | [] => [[]]
  | x :: rest =>
    if test x then [] :: splitWhere test rest
    else
      match splitWhere test rest with
      | [] => [[x]]
      | piece :: pieces => (x :: piece) :: pieces

/-- The words of a text: what is left between blanks. -/
def words (cs : List Char) : List (List Char) :=
  (splitWhere isBlank cs).filter fun word => !word.isEmpty

/-- The text before the first occurrence of a character, and the text after it
when there is one. -/
def cutAt (mark : Char) (cs : List Char) : List Char × Option (List Char) :=
  (cs.takeWhile (· != mark), (cs.dropWhile (· != mark)).tail?)

/-- Pieces joined with a separator between them. -/
def join {α : Type} (separator : List α) : List (List α) → List α
  | [] => []
  | [piece] => piece
  | piece :: pieces => piece ++ separator ++ join separator pieces

/-- Replaces a pattern from the left while `pending` elements of the occurrence
met last are still to be passed over. -/
def replaceFrom {α : Type} [BEq α] (pattern value : List α) : Nat → List α → List α
  | _, [] => []
  | pending + 1, _ :: rest => replaceFrom pattern value pending rest
  | 0, x :: rest =>
    if pattern.isPrefixOf (x :: rest) then
      value ++ replaceFrom pattern value (pattern.length - 1) rest
    else x :: replaceFrom pattern value 0 rest

/-- Replaces every occurrence of a pattern, from the left and without overlap. -/
def replaceAll {α : Type} [BEq α] (pattern value text : List α) : List α :=
  replaceFrom pattern value 0 text

/-- Writes every line end as a single line feed. -/
def unifyLineEnds : List Char → List Char
  | [] => []
  | '\r' :: '\n' :: rest => '\n' :: unifyLineEnds rest
  | '\r' :: rest => '\n' :: unifyLineEnds rest
  | c :: rest => c :: unifyLineEnds rest

/-- Tells whether a pattern occurs in a list. -/
def occursIn {α : Type} [BEq α] (pattern : List α) : List α → Bool
  | [] => pattern.isEmpty
  | x :: rest => pattern.isPrefixOf (x :: rest) || occursIn pattern rest

end Stencil.Text
