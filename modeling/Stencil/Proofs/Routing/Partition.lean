import Stencil.Arrangement.Basic
import Stencil.Proofs.Routing

/-!
# What routing does with placeholders

Routing treats every placeholder on its own.  A placeholder that only refers to known generic
data is left out, and so is one whose tag the catalogue withholds; of the others each is
replaced by the first catalogue record for its tag.  What remains is parted by category.  When
the tags are distinct nothing is merged, and the input list is what an operator finds in the pool.
-/

namespace Stencil.Routing

open Placeholder

/-- Tells whether a placeholder only refers to generic data: it is untyped and its tag is
known. -/
def isReference (known : List Placeholder) (p : Placeholder) : Bool :=
  !p.isTyped && (tagsOf known).contains p.fullTagName

/-- The first catalogue record for the tag of a placeholder, or the placeholder itself when
there is none. -/
def recordOf (catalog : List Placeholder) (p : Placeholder) : Placeholder :=
  (catalogued catalog p.fullTagName).getD p

variable {placeholders catalog known : List Placeholder} {settings : Settings}

theorem dropKnownGeneric_eq_filter (placeholders known : List Placeholder) :
    dropKnownGeneric placeholders known = placeholders.filter fun p => !isReference known p := by
  apply List.filter_congr
  intro p _
  rw [isReference, Bool.not_and, Bool.not_not, Bool.or_comm]

theorem enriched_eq (p : Placeholder) :
    enriched catalog settings p =
      if isWithheld catalog settings p.fullTagName then none else some (recordOf catalog p) := by
  unfold enriched isWithheld recordOf
  cases catalogued catalog p.fullTagName with
  | none => rfl
  | some entry => rfl

theorem enrich_eq_map_filter (placeholders : List Placeholder) :
    enrich placeholders catalog settings =
      (placeholders.filter fun p => !isWithheld catalog settings p.fullTagName).map
        (recordOf catalog) := by
  induction placeholders with
  | nil => rfl
  | cons p rest ih =>
      simp only [enrich] at ih ⊢
      by_cases withheld : isWithheld catalog settings p.fullTagName
      · have leftOut : enriched catalog settings p = none := by rw [enriched_eq, if_pos withheld]
        rw [List.filterMap_cons_none leftOut, ih, List.filter_cons_of_neg (by simp [withheld])]
      · have kept : enriched catalog settings p = some (recordOf catalog p) := by
          rw [enriched_eq, if_neg withheld]
        rw [List.filterMap_cons_some kept, ih, List.filter_cons_of_pos (by simp [withheld]),
          List.map_cons]

theorem isReserved_eq (p : Placeholder) :
    isReserved settings p = decide (settings.categoryOf p.placeholderTypeId ≠ .input) := by
  unfold isReserved
  cases settings.categoryOf p.placeholderTypeId <;> rfl

/-- What becomes of placeholders that are routed. -/
structure IsRoutingOf (routed : Routing) (placeholders catalog : List Placeholder)
    (settings : Settings) (known : List Placeholder) : Prop where
  placeholders_eq : routed.placeholders =
    (placeholders.filter fun p =>
      !isReference known p && !isWithheld catalog settings p.fullTagName).map (recordOf catalog)
  nodup : (tagsOf routed.placeholders).Nodup
  generic_eq : routed.genericList =
    routed.placeholders.filter fun p => settings.categoryOf p.placeholderTypeId ≠ .input
  input_eq : routed.inputList =
    routed.placeholders.filter fun p => settings.categoryOf p.placeholderTypeId = .input
  one_way : ∀ p ∈ routed.placeholders, Xor (p ∈ routed.genericList) (p ∈ routed.inputList)
  input_visible : routed.inputList = visible routed.placeholders settings
  pool_eq : (Arrangement.create routed.placeholders (some settings)).pool = routed.inputList

/-- Placeholders with distinct tags are left out or replaced one by one, in their order, and
what is left is parted by category into generic data and what an operator arranges. -/
theorem isRoutingOf_ofPlaceholders (nodup : (tagsOf placeholders).Nodup) :
    IsRoutingOf (ofPlaceholders placeholders catalog settings known) placeholders catalog settings
      known := by
  have generic_eq := genericList_eq_filter catalog settings known nodup
  have input_eq := inputList_eq_visible catalog settings known nodup
  have visible_eq (routed : List Placeholder) : visible routed settings =
      routed.filter fun p => settings.categoryOf p.placeholderTypeId = .input := by
    apply List.filter_congr
    intro p _
    rw [isReserved_eq, decide_not, Bool.not_not]
  refine ⟨?_, nodup_placeholders catalog settings known nodup, ?_, ?_, ?_, input_eq, ?_⟩
  · simp only [ofPlaceholders]
    rw [enrich_eq_map_filter, dropKnownGeneric_eq_filter, List.filter_filter]
    simp only [Bool.and_comm]
  · rw [generic_eq]
    exact List.filter_congr fun p _ => isReserved_eq p
  · rw [input_eq, visible_eq]
  · intro p pMem
    rw [generic_eq, input_eq, visible, List.mem_filter, List.mem_filter]
    cases isReserved settings p <;> simp [Xor, pMem]
  · rw [input_eq]
    rfl

/-- Placeholders that go all ways: of two with a known tag one is typed, one tag is withheld,
one is catalogued as generic data and one twice, and two are in no catalogue. -/
def mixedPlaceholders : List Placeholder :=
  [{ fullTagName := "Company" },
    { fullTagName := "Seal", placeholderTypeId := "generic-data", fieldTypeId := .str "image" },
    { fullTagName := "Client.Name" },
    { fullTagName := "Secret" },
    { fullTagName := "Logo" },
    { fullTagName := "Folder", placeholderTypeId := "master-folder-only" },
    { fullTagName := "Note" }]

/-- A catalogue with records that contradict each other. -/
def mixedCatalog : List Placeholder :=
  [{ fullTagName := "Client.Name", placeholderTypeId := "input", fieldTypeId := .str "text" },
    { fullTagName := "Secret", placeholderTypeId := "master-folder-only" },
    { fullTagName := "Logo", placeholderTypeId := "generic-data", fieldTypeId := .str "image" },
    { fullTagName := "Client.Name", placeholderTypeId := "master-folder-only" },
    { fullTagName := "Secret", placeholderTypeId := "input" }]

theorem isRoutingOf_mixedPlaceholders :
    let known : List Placeholder := [{ fullTagName := "Seal" }, { fullTagName := "Company" }]
    let routed := ofPlaceholders mixedPlaceholders mixedCatalog {} known
    (tagsOf mixedPlaceholders).Nodup ∧
      IsRoutingOf routed mixedPlaceholders mixedCatalog {} known ∧
      tagsOf routed.genericList = ["Seal", "Logo", "Folder"] ∧
      tagsOf routed.inputList = ["Client.Name", "Note"] := by
  have nodup : (tagsOf mixedPlaceholders).Nodup := by decide
  exact ⟨nodup, isRoutingOf_ofPlaceholders nodup, by decide, by decide⟩

end Stencil.Routing
