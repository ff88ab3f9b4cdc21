import Stencil.Placeholder.Merge
import Stencil.Proofs.Distinct

/-!
# Tags of merged placeholders

Merging keeps every tag, once, and adds no record that was not there.  Placeholders with
distinct tags are merged already.
-/

namespace Stencil.Placeholder

/-- The tags of placeholders. -/
abbrev tagsOf (placeholders : List Placeholder) : List String :=
  placeholders.map (·.fullTagName)

theorem tagsOf_insert (merged : List Placeholder) (p : Placeholder) :
    tagsOf (insert merged p) = addNew (tagsOf merged) p.fullTagName := by
  induction merged with
  | nil => rfl
  | cons kept rest ih =>
      by_cases same : kept.fullTagName = p.fullTagName
      · by_cases replaces : p.isTyped && !kept.isTyped
        · simp [insert, addNew, same, replaces]
        · simp [insert, addNew, same, replaces]
      · have other : p.fullTagName ≠ kept.fullTagName := Ne.symm same
        simp only [insert, beq_iff_eq, same, if_false, List.map_cons, ih]
        simp only [addNew, List.contains_cons, beq_eq_false_iff_ne.mpr other, Bool.false_or]
        split <;> rfl

theorem tagsOf_foldl_insert (merged placeholders : List Placeholder) :
    tagsOf (placeholders.foldl insert merged) =
      addAllNew (tagsOf merged) (tagsOf placeholders) := by
  induction placeholders generalizing merged with
  | nil => rfl
  | cons p rest ih =>
      rw [List.foldl_cons, ih, tagsOf_insert]
      rfl

/-- The tags of a merged list are the tags of the list, each at its first place. -/
theorem tagsOf_merge (placeholders : List Placeholder) :
    tagsOf (merge placeholders) = addAllNew [] (tagsOf placeholders) :=
  tagsOf_foldl_insert [] placeholders

@[simp]
theorem mem_tagsOf_merge {placeholders : List Placeholder} {tag : String} :
    tag ∈ tagsOf (merge placeholders) ↔ tag ∈ tagsOf placeholders := by
  rw [tagsOf_merge, mem_addAllNew]
  simp

theorem nodup_tagsOf_merge (placeholders : List Placeholder) :
    (tagsOf (merge placeholders)).Nodup := by
  rw [tagsOf_merge]
  exact nodup_addAllNew List.nodup_nil _

theorem mem_or_eq_of_mem_insert {merged : List Placeholder} {p q : Placeholder}
    (qMem : q ∈ insert merged p) : q ∈ merged ∨ q = p := by
  induction merged with
  | nil => exact .inr (List.mem_singleton.mp qMem)
  | cons kept rest ih =>
      simp only [insert] at qMem
      split at qMem
      · rcases List.mem_cons.mp qMem with rfl | later
        · split
          · exact .inr rfl
          · exact .inl List.mem_cons_self
        · exact .inl (List.mem_cons_of_mem _ later)
      · rcases List.mem_cons.mp qMem with rfl | later
        · exact .inl List.mem_cons_self
        · exact (ih later).imp_left (List.mem_cons_of_mem _)

theorem insert_eq_append {merged : List Placeholder} {p : Placeholder}
    (new : p.fullTagName ∉ tagsOf merged) : insert merged p = merged ++ [p] := by
  induction merged with
  | nil => rfl
  | cons kept rest ih =>
      simp only [tagsOf, List.map_cons, List.mem_cons, not_or] at new
      simp [insert, Ne.symm new.1, ih new.2]

theorem mem_or_mem_of_mem_foldl_insert {merged placeholders : List Placeholder} {p : Placeholder}
    (pMem : p ∈ placeholders.foldl insert merged) : p ∈ merged ∨ p ∈ placeholders := by
  induction placeholders generalizing merged with
  | nil => exact .inl pMem
  | cons q rest ih =>
      rcases ih pMem with inserted | later
      · rcases mem_or_eq_of_mem_insert inserted with old | rfl
        · exact .inl old
        · exact .inr List.mem_cons_self
      · exact .inr (List.mem_cons_of_mem _ later)

theorem mem_of_mem_merge {placeholders : List Placeholder} {p : Placeholder}
    (pMem : p ∈ merge placeholders) : p ∈ placeholders :=
  (mem_or_mem_of_mem_foldl_insert pMem).resolve_left List.not_mem_nil

/-- Placeholders with distinct tags are merged already. -/
theorem merge_eq_self {placeholders : List Placeholder} (nodup : (tagsOf placeholders).Nodup) :
    merge placeholders = placeholders :=
  foldl_put_eq_append (fun _ _ new => insert_eq_append new) nodup

end Stencil.Placeholder
