import Stencil.Proofs.Placeholder.Merge
import Stencil.Proofs.Placeholder.Token
import Stencil.Routing

/-!
# Where tags go

Routing decides by tag.  A tag is dropped when it is known as generic data already or
when the catalogue withholds it; of the others, those with a reserved record become
generic data and the rest is arranged.  `Settled` says what holds of the pool and of
the generic data when a template has been routed.
-/

namespace Stencil

open Placeholder

namespace Routing

/-- Tells whether the first catalogue record for a tag is for master folders only. -/
def isWithheld (catalog : List Placeholder) (settings : Settings) (tag : String) : Bool :=
  (catalogued catalog tag).any fun entry =>
    settings.categoryOf entry.placeholderTypeId == .masterFolderOnly

variable {catalog : List Placeholder} {settings : Settings}

theorem fullTagName_of_catalogued {tag : String} {entry : Placeholder}
    (found : catalogued catalog tag = some entry) : entry.fullTagName = tag := by
  simpa using List.find?_some found

theorem fullTagName_of_enriched {p q : Placeholder} (kept : enriched catalog settings p = some q) :
    q.fullTagName = p.fullTagName := by
  unfold enriched at kept
  split at kept
  · cases kept
    rfl
  · next entry found =>
      split at kept
      · cases kept
      · cases kept
        exact fullTagName_of_catalogued found

theorem enriched_isSome (p : Placeholder) :
    (enriched catalog settings p).isSome = !isWithheld catalog settings p.fullTagName := by
  unfold enriched isWithheld
  cases catalogued catalog p.fullTagName with
  | none => rfl
  | some entry =>
      by_cases master : settings.categoryOf entry.placeholderTypeId = .masterFolderOnly
      · simp [master]
      · simp [master]

/-- The catalogue takes away the tags that it withholds and no others. -/
theorem tagsOf_enrich (placeholders : List Placeholder) :
    tagsOf (enrich placeholders catalog settings) =
      (tagsOf placeholders).filter fun tag => !isWithheld catalog settings tag := by
  induction placeholders with
  | nil => rfl
  | cons p rest ih =>
      have isSome_eq : (enriched catalog settings p).isSome =
          !isWithheld catalog settings p.fullTagName := enriched_isSome p
      simp only [enrich] at ih ⊢
      cases kept : enriched catalog settings p with
      | none =>
          rw [kept, Option.isSome_none] at isSome_eq
          simp [kept, ih, ← isSome_eq]
      | some q =>
          rw [kept, Option.isSome_some] at isSome_eq
          simp [kept, ih, ← isSome_eq, fullTagName_of_enriched kept]

/-- No record for master folders gets past the catalogue. -/
theorem category_of_mem_enrich {placeholders : List Placeholder}
    (bare : ∀ p ∈ placeholders, p.placeholderTypeId = "") {q : Placeholder}
    (qMem : q ∈ enrich placeholders catalog settings) :
    settings.categoryOf q.placeholderTypeId ≠ .masterFolderOnly := by
  rcases List.mem_filterMap.mp qMem with ⟨p, pMem, kept⟩
  unfold enriched at kept
  split at kept
  · cases kept
    simp [bare _ pMem, Settings.categoryOf]
  · split at kept
    · cases kept
    · next notMaster =>
        cases kept
        simpa using notMaster

/-- Of untyped placeholders those with a known tag are dropped. -/
theorem tagsOf_dropKnownGeneric {placeholders known : List Placeholder}
    (untyped : ∀ p ∈ placeholders, p.isTyped = false) :
    tagsOf (dropKnownGeneric placeholders known) =
      (tagsOf placeholders).filter fun tag => !(tagsOf known).contains tag := by
  rw [dropKnownGeneric, tagsOf, List.filter_map]
  congr 1
  apply List.filter_congr
  intro p pMem
  simp [untyped p pMem]

section Distinct

variable {placeholders : List Placeholder} (catalog) (settings) (known : List Placeholder)

theorem nodup_placeholders (nodup : (tagsOf placeholders).Nodup) :
    (tagsOf (ofPlaceholders placeholders catalog settings known).placeholders).Nodup := by
  simp only [ofPlaceholders]
  rw [tagsOf_enrich]
  exact (nodup.sublist (List.filter_sublist.map _)).filter _

/-- The input list is what the operator arranges. -/
theorem inputList_eq_visible (nodup : (tagsOf placeholders).Nodup) :
    (ofPlaceholders placeholders catalog settings known).inputList =
      visible (ofPlaceholders placeholders catalog settings known).placeholders settings :=
  merge_eq_self
    ((nodup_placeholders catalog settings known nodup).sublist (List.filter_sublist.map _))

theorem genericList_eq_filter (nodup : (tagsOf placeholders).Nodup) :
    (ofPlaceholders placeholders catalog settings known).genericList =
      (ofPlaceholders placeholders catalog settings known).placeholders.filter
        (isReserved settings) :=
  merge_eq_self
    ((nodup_placeholders catalog settings known nodup).sublist (List.filter_sublist.map _))

end Distinct

/-- Among placeholders with distinct tags a tag is either chosen or not. -/
theorem mem_tagsOf_filter_iff {placeholders : List Placeholder}
    (nodup : (tagsOf placeholders).Nodup) (chosen : Placeholder → Bool) {tag : String} :
    tag ∈ tagsOf (placeholders.filter fun p => !chosen p) ↔
      tag ∈ tagsOf placeholders ∧ tag ∉ tagsOf (placeholders.filter chosen) := by
  constructor
  · intro tagMem
    rcases List.mem_map.mp tagMem with ⟨p, pMem, rfl⟩
    rcases List.mem_filter.mp pMem with ⟨pMem, notChosen⟩
    constructor
    · exact List.mem_map_of_mem pMem
    · intro chosenMem
      rcases List.mem_map.mp chosenMem with ⟨q, qMem, tags_eq⟩
      rcases List.mem_filter.mp qMem with ⟨qMem, qChosen⟩
      obtain rfl := List.inj_on_of_nodup_map nodup qMem pMem tags_eq
      simp [qChosen] at notChosen
  · rintro ⟨tagMem, notChosen⟩
    rcases List.mem_map.mp tagMem with ⟨p, pMem, rfl⟩
    apply List.mem_map_of_mem
    apply List.mem_filter.mpr
    refine ⟨pMem, ?_⟩
    by_contra pChosen
    exact notChosen (List.mem_map_of_mem (List.mem_filter.mpr ⟨pMem, by simpa using pChosen⟩))

/-- The placeholders of tokens are untyped. -/
theorem bare_of_mem_ofTokenLists {lists : List (List String)} {p : Placeholder}
    (pMem : p ∈ ofTokenLists lists) : p.placeholderTypeId = "" ∧ p.isTyped = false := by
  rcases List.mem_flatten.mp (mem_of_mem_merge pMem) with ⟨placeholders, listMem, pMem⟩
  rcases List.mem_map.mp listMem with ⟨tokens, _, rfl⟩
  rcases List.mem_map.mp pMem with ⟨token, _, rfl⟩
  exact ⟨rfl, rfl⟩

/-- The tags of the placeholders of names are these names. -/
theorem mem_tagsOf_ofTokenLists {tokens : List String}
    (names : ∀ token ∈ tokens, Token.IsName token.toList) {tag : String} :
    tag ∈ tagsOf (ofTokenLists [tokens]) ↔ tag ∈ tokens := by
  rw [ofTokenLists, mem_tagsOf_merge]
  simp only [List.map_cons, List.map_nil, List.flatten_cons, List.flatten_nil, List.append_nil,
    tagsOf]
  rw [Token.tags_toPlaceholders names]

/-- The routing of the tokens of a template. -/
def ofTokens (tokens : List String) (catalog : List Placeholder) (settings : Settings)
    (known : List Placeholder) : Routing :=
  ofPlaceholders (ofTokenLists [tokens]) catalog settings known

variable {tokens : List String} {known : List Placeholder}

theorem tagsOf_placeholders_ofTokens :
    tagsOf (ofTokens tokens catalog settings known).placeholders =
      (tagsOf (ofTokenLists [tokens])).filter fun tag =>
        !(tagsOf known).contains tag && !isWithheld catalog settings tag := by
  simp only [ofTokens, ofPlaceholders]
  rw [tagsOf_enrich, tagsOf_dropKnownGeneric fun p pMem => (bare_of_mem_ofTokenLists pMem).2,
    List.filter_filter]
  simp only [Bool.and_comm]

theorem nodup_placeholders_ofTokens :
    (tagsOf (ofTokens tokens catalog settings known).placeholders).Nodup :=
  nodup_placeholders catalog settings known (nodup_tagsOf_merge _)

theorem mem_placeholders_ofTokens_iff (names : ∀ token ∈ tokens, Token.IsName token.toList)
    {tag : String} :
    tag ∈ tagsOf (ofTokens tokens catalog settings known).placeholders ↔
      tag ∈ tokens ∧ tag ∉ tagsOf known ∧ isWithheld catalog settings tag = false := by
  rw [tagsOf_placeholders_ofTokens, List.mem_filter, mem_tagsOf_ofTokenLists names]
  simp

theorem inputList_ofTokens :
    (ofTokens tokens catalog settings known).inputList =
      visible (ofTokens tokens catalog settings known).placeholders settings :=
  inputList_eq_visible catalog settings known (nodup_tagsOf_merge _)

theorem nodup_inputList_ofTokens :
    (tagsOf (ofTokens tokens catalog settings known).inputList).Nodup := by
  rw [inputList_ofTokens]
  exact nodup_placeholders_ofTokens.sublist (List.filter_sublist.map _)

theorem genericList_ofTokens :
    (ofTokens tokens catalog settings known).genericList =
      (ofTokens tokens catalog settings known).placeholders.filter (isReserved settings) :=
  genericList_eq_filter catalog settings known (nodup_tagsOf_merge _)

theorem category_of_mem_placeholders_ofTokens {p : Placeholder}
    (pMem : p ∈ (ofTokens tokens catalog settings known).placeholders) :
    settings.categoryOf p.placeholderTypeId ≠ .masterFolderOnly := by
  refine category_of_mem_enrich (fun q qMem => ?_) pMem
  exact (bare_of_mem_ofTokenLists (List.mem_of_mem_filter qMem)).1

/-- What holds of the placeholders to arrange and of generic data once the tokens of a
template have been routed by a catalogue. -/
structure Settled (settings : Settings) (catalog : List Placeholder) (tokens : List String)
    (generic arranged : List Placeholder) : Prop where
  mem_arranged_iff : ∀ tag ∈ tokens,
    tag ∈ tagsOf arranged ↔ tag ∉ tagsOf generic ∧ isWithheld catalog settings tag = false
  arranged_subset : ∀ tag ∈ tagsOf arranged, tag ∈ tokens
  arranged_nodup : (tagsOf arranged).Nodup
  generic_nodup : (tagsOf generic).Nodup
  disjoint : (tagsOf arranged).Disjoint (tagsOf generic)
  arranged_category : ∀ p ∈ arranged,
    settings.categoryOf p.placeholderTypeId ≠ .masterFolderOnly
  generic_category : ∀ p ∈ generic,
    settings.categoryOf p.placeholderTypeId ≠ .masterFolderOnly

/-- Routing settles the pool and the generic data, whatever generic data was known. -/
theorem settled_ofTokens (catalog : List Placeholder) (settings : Settings)
    (names : ∀ token ∈ tokens, Token.IsName token.toList)
    (known_category : ∀ p ∈ known, settings.categoryOf p.placeholderTypeId ≠ .masterFolderOnly) :
    Settled settings catalog tokens
      (merge (known ++ (ofTokens tokens catalog settings known).genericList))
      (ofTokens tokens catalog settings known).inputList := by
  let routed := (ofTokens tokens catalog settings known).placeholders
  have mem_generic {tag : String} :
      tag ∈ tagsOf (merge (known ++ (ofTokens tokens catalog settings known).genericList)) ↔
        tag ∈ tagsOf known ∨ tag ∈ tagsOf (routed.filter (isReserved settings)) := by
    rw [mem_tagsOf_merge, genericList_ofTokens, tagsOf, List.map_append, List.mem_append]
  have mem_pool {tag : String} :
      tag ∈ tagsOf (ofTokens tokens catalog settings known).inputList ↔
        tag ∈ tagsOf routed ∧ tag ∉ tagsOf (routed.filter (isReserved settings)) := by
    rw [inputList_ofTokens]
    exact mem_tagsOf_filter_iff nodup_placeholders_ofTokens _
  have mem_routed {tag : String} :
      tag ∈ tagsOf routed ↔
        tag ∈ tokens ∧ tag ∉ tagsOf known ∧ isWithheld catalog settings tag = false :=
    mem_placeholders_ofTokens_iff names
  exact {
    mem_arranged_iff := by
      intro tag tagMem
      rw [mem_pool, mem_generic, mem_routed]
      tauto
    arranged_subset := by
      intro tag inPool
      exact (mem_routed.mp (mem_pool.mp inPool).1).1
    arranged_nodup := nodup_inputList_ofTokens
    generic_nodup := nodup_tagsOf_merge _
    disjoint := by
      intro tag inPool inGeneric
      rcases mem_pool.mp inPool with ⟨inRouted, notReserved⟩
      rcases mem_generic.mp inGeneric with inKnown | reserved
      · exact (mem_routed.mp inRouted).2.1 inKnown
      · exact notReserved reserved
    arranged_category := by
      intro p pMem
      rw [inputList_ofTokens] at pMem
      exact category_of_mem_placeholders_ofTokens (List.mem_of_mem_filter pMem)
    generic_category := by
      intro p pMem
      rcases List.mem_append.mp (mem_of_mem_merge pMem) with old | new
      · exact known_category p old
      · rw [genericList_ofTokens] at new
        exact category_of_mem_placeholders_ofTokens (List.mem_of_mem_filter new) }

end Routing

end Stencil
