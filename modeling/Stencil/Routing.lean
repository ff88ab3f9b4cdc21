import Stencil.Placeholder.Merge
import Stencil.Settings.Basic

/-!
# Routing of placeholders

The placeholders found in a template go one of two ways: to the generic data of
the organisation, or to the operator who arranges input fields.  A catalogue of
registered placeholders is the authority on types.  Routing runs in three
passes: references to generic data that is known already are dropped, the
remaining placeholders are replaced by their catalogue records, and the result is
parted by category.
-/

namespace Stencil

/-- Where the placeholders of a template go. -/
structure Routing where
  placeholders : List Placeholder
  genericList : List Placeholder
  inputList : List Placeholder
  deriving DecidableEq, Repr, Inhabited

namespace Routing

/-- Drops the untyped placeholders whose tag is known as generic data.  A typed
record takes precedence over the reference. -/
def dropKnownGeneric (placeholders generic : List Placeholder) : List Placeholder :=
  let tags := generic.map (·.fullTagName)
  placeholders.filter fun p => !tags.contains p.fullTagName || p.isTyped

/-- The first catalogue record for a tag. -/
def catalogued (catalog : List Placeholder) (tag : String) : Option Placeholder :=
  catalog.find? fun entry => entry.fullTagName == tag

/-- The catalogue record of a placeholder in its place; nothing when that record
is for master folders only, and the placeholder itself when there is no record. -/
def enriched (catalog : List Placeholder) (settings : Settings) (p : Placeholder) :
    Option Placeholder :=
  match catalogued catalog p.fullTagName with
  | none => some p
  | some entry =>
    if settings.categoryOf entry.placeholderTypeId == .masterFolderOnly then none else some entry

/-- Replaces placeholders by their catalogue records. -/
def enrich (placeholders catalog : List Placeholder) (settings : Settings) : List Placeholder :=
  placeholders.filterMap (enriched catalog settings)

/-- Tells whether a placeholder is kept out of an operator's hands. -/
def isReserved (settings : Settings) (p : Placeholder) : Bool :=
  (settings.categoryOf p.placeholderTypeId).isReserved

/-- The generic placeholders and the input placeholders, each merged on its own. -/
def part (placeholders : List Placeholder) (settings : Settings) :
    List Placeholder × List Placeholder :=
  (Placeholder.merge (placeholders.filter (isReserved settings)),
    Placeholder.merge (placeholders.filter fun p => !isReserved settings p))

/-- The placeholders that an operator arranges. -/
def visible (placeholders : List Placeholder) (settings : Settings) : List Placeholder :=
  placeholders.filter fun p => !isReserved settings p

/-- Routes placeholders; `known` is the generic data known before. -/
def ofPlaceholders (placeholders catalog : List Placeholder) (settings : Settings)
    (known : List Placeholder) : Routing :=
  let placeholders := enrich (dropKnownGeneric placeholders known) catalog settings
  let (genericList, inputList) := part placeholders settings
  { placeholders, genericList, inputList }

end Routing

end Stencil
