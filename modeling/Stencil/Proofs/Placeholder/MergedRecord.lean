import Stencil.Proofs.Placeholder.Merge

/-!
# Records of merged placeholders

A merged list is determined by its tags, in the order of their first places, and by the
record for each of them: the first typed one, or the first one where none is typed.  Both can
be read off any list that was merged in part before, so lists may be merged in groups or one
after the other, as a session does with the generic data of its uploads.
-/

namespace Stencil.Placeholder

/-- The first placeholder with a tag. -/
def first? (placeholders : List Placeholder) (tag : String) : Option Placeholder :=
  placeholders.find? fun p => p.fullTagName == tag

/-- The first typed placeholder with a tag. -/
def firstTyped? (placeholders : List Placeholder) (tag : String) : Option Placeholder :=
  placeholders.find? fun p => p.fullTagName == tag && p.isTyped

/-- The record for a tag: the first typed one, or the first one where none is typed. -/
def recordFor (placeholders : List Placeholder) (tag : String) : Option Placeholder :=
  (firstTyped? placeholders tag).or (first? placeholders tag)

/-- The record that is kept of two for one tag: the former, unless only the latter is typed. -/
def preferred : Option Placeholder → Option Placeholder → Option Placeholder
  | some kept, some later => some (if later.isTyped && !kept.isTyped then later else kept)
  | some kept, none => some kept
  | none, later => later

@[simp]
theorem preferred_none (kept : Option Placeholder) : preferred kept none = kept := by
  cases kept <;> rfl

variable {placeholders : List Placeholder} {tag : String} {p : Placeholder}

theorem isTyped_of_firstTyped? (found : firstTyped? placeholders tag = some p) :
    p.isTyped = true := by
  have passes := List.find?_some found
  rw [Bool.and_eq_true] at passes
  exact passes.2

theorem isTyped_of_first? (noneTyped : firstTyped? placeholders tag = none)
    (found : first? placeholders tag = some p) : p.isTyped = false := by
  have fails := List.find?_eq_none.mp noneTyped p (List.mem_of_find?_eq_some found)
  simpa [List.find?_some found] using fails

/-- The record among two lists is the preferred one of their records. -/
theorem recordFor_append (a b : List Placeholder) (tag : String) :
    recordFor (a ++ b) tag = preferred (recordFor a tag) (recordFor b tag) := by
  have append_eq : recordFor (a ++ b) tag =
      ((firstTyped? a tag).or (firstTyped? b tag)).or ((first? a tag).or (first? b tag)) := by
    rw [recordFor, firstTyped?, first?, List.find?_append, List.find?_append]
    rfl
  rw [append_eq, recordFor, recordFor]
  cases typed_a : firstTyped? a tag with
  | some p =>
      have typed := isTyped_of_firstTyped? typed_a
      cases (firstTyped? b tag).or (first? b tag) <;> simp [preferred, typed]
  | none =>
      cases first_a : first? a tag with
      | none => rfl
      | some p =>
          have untyped := isTyped_of_first? typed_a first_a
          cases typed_b : firstTyped? b tag with
          | some q => simp [preferred, untyped, isTyped_of_firstTyped? typed_b]
          | none =>
              cases first_b : first? b tag with
              | none => rfl
              | some q => simp [preferred, isTyped_of_first? typed_b first_b]

theorem recordFor_singleton (p : Placeholder) (tag : String) :
    recordFor [p] tag = if p.fullTagName = tag then some p else none := by
  by_cases same : p.fullTagName = tag
  · cases typed : p.isTyped <;> simp [recordFor, firstTyped?, first?, same, typed]
  · simp [recordFor, firstTyped?, first?, same]

theorem first?_insert (merged : List Placeholder) (p : Placeholder) (tag : String) :
    first? (insert merged p) tag =
      preferred (first? merged tag) (if p.fullTagName = tag then some p else none) := by
  induction merged with
  | nil =>
      by_cases same : p.fullTagName = tag
      · simp [insert, first?, preferred, same]
      · simp [insert, first?, same]
  | cons kept rest ih =>
      by_cases keptSame : kept.fullTagName = p.fullTagName
      · by_cases same : p.fullTagName = tag
        · -- the record in place is the only one to give way
          have inPlace : first? (insert (kept :: rest) p) tag =
              some (if p.isTyped && !kept.isTyped then p else kept) := by
            simp only [insert, keptSame, beq_self_eq_true, if_true, first?]
            rw [List.find?_cons_of_pos]
            split <;> simp [keptSame, same]
          rw [inPlace, if_pos same, first?, List.find?_cons_of_pos (by simp [keptSame, same])]
          rfl
        -- whichever of the two records stays in place, it has another tag
        · have other : ¬kept.fullTagName = tag := keptSame ▸ same
          have passedOver : first? (insert (kept :: rest) p) tag = first? rest tag := by
            simp only [insert, keptSame, beq_self_eq_true, if_true, first?]
            rw [List.find?_cons_of_neg]
            split <;> simp [keptSame, same]
          rw [passedOver, if_neg same, preferred_none, first?, first?,
            List.find?_cons_of_neg (by simpa using other)]
      · have insert_eq : insert (kept :: rest) p = kept :: insert rest p := by
          simp [insert, keptSame]
        rw [insert_eq]
        by_cases same : kept.fullTagName = tag
        · have other : ¬p.fullTagName = tag := fun eq => keptSame (same.trans eq.symm)
          simp [first?, same, other]
        · have later (list : List Placeholder) : first? (kept :: list) tag = first? list tag :=
            List.find?_cons_of_neg (by simpa using same)
          rw [later, later, ih]

/-- A merged list holds the record for every tag. -/
theorem first?_merge (placeholders : List Placeholder) (tag : String) :
    first? (merge placeholders) tag = recordFor placeholders tag := by
  induction placeholders using List.reverseRecOn with
  | nil => rfl
  | append_singleton rest p ih =>
      have merge_eq : merge (rest ++ [p]) = insert (merge rest) p := List.foldl_append
      rw [merge_eq, first?_insert, ih, recordFor_append, recordFor_singleton]

/-- Placeholders with distinct tags are got back by their tags. -/
theorem eq_filterMap_first? (nodup : (tagsOf placeholders).Nodup) :
    placeholders = (tagsOf placeholders).filterMap (first? placeholders) := by
  induction placeholders with
  | nil => rfl
  | cons p rest ih =>
      obtain ⟨pNew, restNodup⟩ := List.nodup_cons.mp nodup
      have here : first? (p :: rest) p.fullTagName = some p := by simp [first?]
      have later : ∀ tag ∈ tagsOf rest, first? (p :: rest) tag = first? rest tag := by
        intro tag tagMem
        have other : p.fullTagName ≠ tag := by
          rintro rfl
          exact pNew tagMem
        exact List.find?_cons_of_neg (by simpa using other)
      rw [tagsOf, List.map_cons, List.filterMap_cons_some here, ← tagsOf,
        List.filterMap_congr later, ← ih restNodup]

theorem merge_eq_filterMap (placeholders : List Placeholder) :
    merge placeholders =
      (addAllNew [] (tagsOf placeholders)).filterMap (recordFor placeholders) := by
  rw [eq_filterMap_first? (nodup_tagsOf_merge placeholders), tagsOf_merge]
  exact List.filterMap_congr fun tag _ => first?_merge placeholders tag

/-- Lists with the same first places and the same records are merged into the same list. -/
theorem merge_congr {a b : List Placeholder}
    (tags_eq : addAllNew [] (tagsOf a) = addAllNew [] (tagsOf b))
    (records_eq : ∀ tag, recordFor a tag = recordFor b tag) : merge a = merge b := by
  rw [merge_eq_filterMap a, merge_eq_filterMap b, tags_eq]
  exact List.filterMap_congr fun tag _ => records_eq tag

theorem merge_merge (placeholders : List Placeholder) :
    merge (merge placeholders) = merge placeholders :=
  merge_eq_self (nodup_tagsOf_merge placeholders)

theorem recordFor_merge (placeholders : List Placeholder) (tag : String) :
    recordFor (merge placeholders) tag = recordFor placeholders tag := by
  rw [← first?_merge (merge placeholders), merge_merge, first?_merge]

theorem firstPlaces_append (a b : List Placeholder) :
    addAllNew [] (tagsOf (a ++ b)) = addAllNew (addAllNew [] (tagsOf a)) (tagsOf b) := by
  rw [tagsOf, List.map_append, addAllNew_append]

theorem merge_merge_append (a b : List Placeholder) : merge (merge a ++ b) = merge (a ++ b) := by
  apply merge_congr
  · rw [firstPlaces_append, firstPlaces_append, tagsOf_merge, addAllNew_addAllNew]
    rfl
  · intro tag
    rw [recordFor_append, recordFor_append, recordFor_merge]

theorem merge_append_merge (a b : List Placeholder) : merge (a ++ merge b) = merge (a ++ b) := by
  apply merge_congr
  · rw [firstPlaces_append, firstPlaces_append, tagsOf_merge b, addAllNew_addAllNew]
    rfl
  · intro tag
    rw [recordFor_append, recordFor_append, recordFor_merge]

/-- Lists that are merged as they come are merged all at once. -/
theorem foldl_merge (known : List Placeholder) (sources : List (List Placeholder)) :
    sources.foldl (fun known source => merge (known ++ source)) (merge known) =
      merge (known ++ sources.flatten) := by
  induction sources generalizing known with
  | nil => simp
  | cons source rest ih =>
      rw [List.foldl_cons, merge_merge_append, ih, List.flatten_cons, List.append_assoc]

/-- What a merged list is: it has every tag once, in the order of first places, and for every
tag the first typed record, or the first one where none is typed. -/
structure IsMergeOf (merged placeholders : List Placeholder) : Prop where
  nodup : (tagsOf merged).Nodup
  mem_tags_iff : ∀ tag, tag ∈ tagsOf merged ↔ tag ∈ tagsOf placeholders
  inOrder : (tagsOf merged).Pairwise fun first second =>
    (tagsOf placeholders).idxOf first < (tagsOf placeholders).idxOf second
  record : ∀ p ∈ merged, recordFor placeholders p.fullTagName = some p

theorem isMergeOf_merge (placeholders : List Placeholder) :
    IsMergeOf (merge placeholders) placeholders where
  nodup := nodup_tagsOf_merge placeholders
  mem_tags_iff := fun _ => mem_tagsOf_merge
  inOrder := by
    rw [tagsOf_merge]
    exact pairwise_idxOf_addAllNew _
  record := by
    intro p pMem
    rw [merge_eq_filterMap] at pMem
    obtain ⟨tag, _, found⟩ := List.mem_filterMap.mp pMem
    rw [← first?_merge] at found ⊢
    have tag_eq : p.fullTagName = tag := by simpa using List.find?_some found
    rwa [tag_eq]

/-- Merging lists puts the tags in the order of their first places, with the first typed record
or else the first one, and it may be done in groups: again, a part before the rest, or one list
after the other. -/
theorem merge_of_sources :
    (∀ sources : List (List Placeholder), IsMergeOf (merge sources.flatten) sources.flatten ∧
      sources.foldl (fun known source => merge (known ++ source)) [] = merge sources.flatten) ∧
    (∀ a, merge (merge a) = merge a) ∧
    ∀ a b, merge (merge a ++ b) = merge (a ++ b) ∧ merge (a ++ merge b) = merge (a ++ b) := by
  refine ⟨fun sources => ⟨isMergeOf_merge _, foldl_merge [] sources⟩, merge_merge, ?_⟩
  exact fun a b => ⟨merge_merge_append a b, merge_append_merge a b⟩

end Stencil.Placeholder
