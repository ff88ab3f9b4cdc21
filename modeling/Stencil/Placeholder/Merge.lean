import Stencil.Placeholder.Token

/-!
# Merging placeholders

Several lists of placeholders are merged into one in which every tag occurs once.
A tag keeps the place of its first occurrence.  Its record is the first one, until
a typed record takes the place of one that is not.
-/

namespace Stencil.Placeholder

/-- Puts a placeholder into a merged list. -/
def insert (merged : List Placeholder) (p : Placeholder) : List Placeholder :=
  match merged with
  | [] => [p]
  | kept :: rest =>
    if kept.fullTagName == p.fullTagName then
      (if p.isTyped && !kept.isTyped then p else kept) :: rest
    else kept :: insert rest p

/-- Merges placeholders into one list without repeated tags. -/
def merge (placeholders : List Placeholder) : List Placeholder :=
  placeholders.foldl insert []

/-- The placeholders of several lists of tokens, merged. -/
def ofTokenLists (lists : List (List String)) : List Placeholder :=
  merge (lists.map Token.toPlaceholders).flatten

end Stencil.Placeholder
