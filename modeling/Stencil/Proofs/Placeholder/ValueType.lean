import Stencil.Catalog.Basic
import Stencil.Proofs.Arrangement.Steps
import Stencil.Proofs.Outcome
import Stencil.Proofs.Routing

/-!
# Value types that are texts

An operator may assign any value as a value type, and compiling refuses what is no
text.  Placeholders that come from tokens or from catalogue files have texts.
-/

namespace Stencil

namespace Placeholder

/-- The id of the value type is a text. -/
def IsTextTyped (p : Placeholder) : Prop :=
  ∃ id, p.fieldTypeId = .str id

theorem isTextTyped_toPlaceholder (token : String) : (Token.toPlaceholder token).IsTextTyped :=
  ⟨"", rfl⟩

theorem isTextTyped_of_ofFields {fields : Record.Fields} {p : Placeholder}
    (read : ofFields fields = .ok p) : p.IsTextTyped := by
  unfold ofFields check at read
  dsimp only at read
  generalize Checked.both _ _ = checked at read
  cases checked with
  | sound parts =>
      cases read
      exact ⟨_, rfl⟩
  | faulty found => cases read
  | unlistable => cases read

end Placeholder

open Placeholder

theorem Catalog.isTextTyped_of_loadPlaceholders {files : Files} {path : FilePath}
    {placeholders : List Placeholder} (loaded : loadPlaceholders files path = .ok placeholders) :
    ∀ p ∈ placeholders, p.IsTextTyped := by
  unfold loadPlaceholders at loaded
  obtain ⟨rows, _, loaded⟩ := bind_eq_ok.mp loaded
  split at loaded
  · next placeholders' read =>
      cases loaded
      intro p pMem
      obtain ⟨row, _, p_eq⟩ := exists_of_mem_mapM read pMem
      exact isTextTyped_of_ofFields p_eq
  · cases loaded

/-- The placeholders of a catalogue file have texts as value types. -/
theorem Catalogs.isTextTyped_of_ofFiles {files : Files} {paths : Paths} :
    ∀ p ∈ entriesOf (ofFiles files paths).placeholders, p.IsTextTyped := by
  simp only [ofFiles, fetchAt]
  split
  · simp [entriesOf]
  · split
    · next entries loaded => exact Catalog.isTextTyped_of_loadPlaceholders loaded
    · simp [entriesOf]

/-- What is routed comes from a token or from the catalogue. -/
theorem Routing.isTextTyped_of_mem_ofTokens {tokens : List String}
    {catalog known : List Placeholder} {settings : Settings}
    (catalogTyped : ∀ entry ∈ catalog, entry.IsTextTyped) :
    ∀ p ∈ (ofTokens tokens catalog settings known).placeholders, p.IsTextTyped := by
  intro p pMem
  rcases List.mem_filterMap.mp pMem with ⟨origin, originMem, kept⟩
  unfold enriched at kept
  split at kept
  · cases kept
    obtain ⟨placeholders, listMem, tokenMem⟩ :=
      List.mem_flatten.mp (mem_of_mem_merge (List.mem_of_mem_filter originMem))
    rcases List.mem_map.mp listMem with ⟨tokens', _, rfl⟩
    rcases List.mem_map.mp tokenMem with ⟨token, _, rfl⟩
    exact isTextTyped_toPlaceholder token
  · next entry found =>
      split at kept
      · cases kept
      · cases kept
        exact catalogTyped _ (List.mem_of_find?_eq_some found)

theorem Arrangement.isTextTyped_of_mem_numbered {fields : List Placeholder}
    (typed : ∀ p ∈ fields, p.IsTextTyped) : ∀ p ∈ numbered fields, p.IsTextTyped := by
  intro p pMem
  obtain ⟨q, qMem, order, rfl⟩ := exists_of_mem_numbered pMem
  exact typed q qMem

end Stencil
