import Stencil.Proofs.Arrangement.Contents
import Stencil.Proofs.Arrangement.Edit
import Stencil.Proofs.Placeholder.Merge

/-!
# Conservation

Whatever commands an operator issues, nothing of the initial pool gets lost, doubled or
altered in its lasting parts, all placeholders of one tag stay together in one
container, and no step is left empty.  The moves choose by tag; this is why they
cannot tear the placeholders of one tag apart.
-/

namespace Stencil.Arrangement

open Placeholder

namespace Contents

/-- All that lies in some container. -/
def total (c : Contents) : Multiset Lasting :=
  c.pool + c.steps.sum

/-- No tag occurs in both. -/
def Apart (first second : Multiset Lasting) : Prop :=
  ∀ p ∈ first, ∀ q ∈ second, p.fullTagName ≠ q.fullTagName

/-- The contents distribute what there was in the beginning over the pool and steps that
are not empty, without parting the placeholders of one tag. -/
structure Sound (origin : Multiset Lasting) (c : Contents) : Prop where
  total_eq : c.total = origin
  pool_apart : ∀ step ∈ c.steps, Apart c.pool step
  steps_apart : c.steps.Pairwise Apart
  steps_filled : ∀ step ∈ c.steps, step ≠ 0

theorem Apart.mono {first second first' second' : Multiset Lasting} (apart : Apart first second)
    (firstLe : first' ≤ first) (secondLe : second' ≤ second) : Apart first' second' :=
  fun p pMem q qMem =>
    apart p (Multiset.mem_of_le firstLe pMem) q (Multiset.mem_of_le secondLe qMem)

/-- What is chosen by tag has no tag in common with what is not. -/
theorem apart_of_chosen {chosen : String → Bool} {first second : Multiset Lasting}
    (firstNot : ∀ p ∈ first, ¬chosen p.fullTagName)
    (secondChosen : ∀ q ∈ second, chosen q.fullTagName) :
    Apart first second := by
  intro p pMem q qMem tags_eq
  apply firstNot p pMem
  rw [tags_eq]
  exact secondChosen q qMem

theorem sum_filter_add_sum_filter_not (chosen : String → Bool) (steps : List (Multiset Lasting)) :
    (steps.map fun step => step.filter fun p => chosen p.fullTagName).sum +
      (steps.map fun step => step.filter fun p => ¬chosen p.fullTagName).sum = steps.sum := by
  induction steps with
  | nil => rfl
  | cons step rest ih =>
      simp only [List.map_cons, List.sum_cons]
      rw [add_add_add_comm, Multiset.filter_add_not, ih]

theorem chosen_of_mem_sum_filter {chosen : String → Bool} {steps : List (Multiset Lasting)}
    {p : Lasting}
    (pMem : p ∈ (steps.map fun step => step.filter fun p => chosen p.fullTagName).sum) :
    chosen p.fullTagName := by
  induction steps with
  | nil => simp at pMem
  | cons step rest ih =>
      rw [List.map_cons, List.sum_cons, Multiset.mem_add] at pMem
      rcases pMem with here | later
      · exact (Multiset.mem_filter.mp here).2
      · exact ih later

theorem sum_filter_ne_zero (steps : List (Multiset Lasting)) :
    (steps.filter (· ≠ 0)).sum = steps.sum := by
  induction steps with
  | nil => rfl
  | cons step rest ih =>
      by_cases empty : step = 0
      · simpa [empty] using ih
      · simpa [empty] using ih

theorem Sound.moveRight {origin : Multiset Lasting} {c : Contents} (sound : c.Sound origin)
    {chosen : String → Bool} (some_chosen : c.pool.filter (fun p => chosen p.fullTagName) ≠ 0) :
    (c.moveRight chosen).Sound origin where
  total_eq := by
    rw [← sound.total_eq]
    simp only [total, Contents.moveRight, List.sum_append, List.sum_cons, List.sum_nil, add_zero]
    rw [add_left_comm, add_comm (Multiset.filter _ _), Multiset.filter_add_not, add_comm]
  pool_apart := by
    intro step stepMem
    -- an old step keeps its fields while the pool shrinks; the new one was chosen by its tags
    rcases List.mem_append.mp stepMem with old | new
    · exact (sound.pool_apart step old).mono (Multiset.filter_le _ _) le_rfl
    · obtain rfl := List.mem_singleton.mp new
      exact apart_of_chosen (fun p pMem => (Multiset.mem_filter.mp pMem).2)
        fun q qMem => (Multiset.mem_filter.mp qMem).2
  steps_apart := by
    refine List.pairwise_append.mpr ⟨sound.steps_apart, List.pairwise_singleton _ _, ?_⟩
    intro old oldMem new newMem p pMem q qMem tags_eq
    obtain rfl := List.mem_singleton.mp newMem
    exact sound.pool_apart old oldMem q (Multiset.mem_of_mem_filter qMem) p pMem tags_eq.symm
  steps_filled := by
    intro step stepMem
    rcases List.mem_append.mp stepMem with old | new
    · exact sound.steps_filled step old
    · obtain rfl := List.mem_singleton.mp new
      exact some_chosen

theorem Sound.moveLeft {origin : Multiset Lasting} {c : Contents} (sound : c.Sound origin)
    (chosen : String → Bool) : (c.moveLeft chosen).Sound origin where
  total_eq := by
    rw [← sound.total_eq]
    simp only [total, Contents.moveLeft]
    rw [sum_filter_ne_zero, add_assoc, sum_filter_add_sum_filter_not]
  pool_apart := by
    intro step stepMem
    rcases List.mem_map.mp (List.mem_of_mem_filter stepMem) with ⟨old, oldMem, rfl⟩
    intro p pMem q qMem tags_eq
    rcases Multiset.mem_add.mp pMem with kept | returned
    · exact sound.pool_apart old oldMem p kept q (Multiset.mem_of_mem_filter qMem) tags_eq
    · apply (Multiset.mem_filter.mp qMem).2
      rw [← tags_eq]
      exact chosen_of_mem_sum_filter returned
  steps_apart := by
    apply List.Pairwise.filter
    refine List.Pairwise.map _ ?_ sound.steps_apart
    intro first second apart
    exact apart.mono (Multiset.filter_le _ _) (Multiset.filter_le _ _)
  steps_filled := by
    intro step stepMem
    simpa using (List.mem_filter.mp stepMem).2

end Contents

/-- An arrangement of the placeholders of a pool. -/
structure Arranges (pool : List Placeholder) (a : Arrangement) : Prop where
  initialPool_eq : a.initialPool = pool
  sound : a.contents.Sound (contentOf pool)

theorem arranges_start (pool : List Placeholder) : Arranges pool (start pool) where
  initialPool_eq := rfl
  sound := {
    total_eq := by simp [Contents.total, contents, start]
    pool_apart := by simp [contents, start]
    steps_apart := by simp [contents, start]
    steps_filled := by simp [contents, start] }

theorem arranges_create (placeholders : List Placeholder) (settings : Option Settings) :
    Arranges (create placeholders settings).pool (create placeholders settings) := by
  cases settings with
  | none => exact arranges_start _
  | some settings => exact arranges_start _

/-- No edit touches the pool to which everything can be reset. -/
theorem initialPool_of_edit {a b : Arrangement} (edit : a.Edit b) :
    b.initialPool = a.initialPool := by
  have modifyField_eq (tag : Json) (change : Placeholder → Placeholder) :
      (a.modifyField tag change).initialPool = a.initialPool := by
    unfold modifyField
    split <;> rfl
  cases edit with
  | unchanged => rfl
  | select tags shouldSelect => rfl
  | moveRight =>
      by_cases chosen : a.selectedPool = []
      · rw [moveRight_of_unselected chosen]
      · rw [moveRight_of_selected chosen]
  | moveLeft =>
      by_cases chosen : a.selected = []
      · rw [moveLeft_of_unselected chosen]
      · rw [moveLeft_of_selected chosen]
  | reorder index source target =>
      unfold reorder
      split
      · split <;> rfl
      · rfl
  | setTitle index title => rfl
  | setFieldType tag type => exact modifyField_eq _ _
  | addOption tag text =>
      unfold addOption
      split
      · rfl
      · exact modifyField_eq _ _
  | removeOption tag value => exact modifyField_eq _ _
  | reset => rfl

/-- An edit leaves the contents alone, moves something or resets them. -/
theorem contents_of_edit {a b : Arrangement} (edit : a.Edit b) :
    b.contents = a.contents ∨
      (a.selectedPool ≠ [] ∧ b.contents = a.contents.moveRight a.isSelected) ∨
      b.contents = a.contents.moveLeft a.isSelected ∨ b = start a.initialPool := by
  cases edit with
  | unchanged => exact .inl rfl
  | select tags shouldSelect => exact .inl (a.contents_setSelected _ _)
  | moveRight =>
      by_cases chosen : a.selectedPool = []
      · exact .inl (by rw [moveRight_of_unselected chosen])
      · exact .inr (.inl ⟨chosen, contents_moveRight chosen⟩)
  | moveLeft =>
      by_cases chosen : a.selected = []
      · exact .inl (by rw [moveLeft_of_unselected chosen])
      · exact .inr (.inr (.inl (contents_moveLeft chosen)))
  | reorder index source target => exact .inl (a.contents_reorder _ _ _)
  | setTitle index title => exact .inl (a.contents_setTitle _ _)
  | setFieldType tag type => exact .inl (a.contents_setFieldType _ _)
  | addOption tag text => exact .inl (a.contents_addOption _ _)
  | removeOption tag value => exact .inl (a.contents_removeOption _ _)
  | reset => exact .inr (.inr (.inr rfl))

/-- Every edit of an arrangement of a pool leads to an arrangement of that pool. -/
theorem arranges_of_edit {pool : List Placeholder} {a b : Arrangement} (edit : a.Edit b)
    (arranges : Arranges pool a) : Arranges pool b := by
  have initialPool_eq := (initialPool_of_edit edit).trans arranges.initialPool_eq
  rcases contents_of_edit edit with same | ⟨chosen, right⟩ | left | rfl
  · exact ⟨initialPool_eq, same ▸ arranges.sound⟩
  · refine ⟨initialPool_eq, right ▸ arranges.sound.moveRight ?_⟩
    rw [contents, ← contentOf_filter, ne_eq, contentOf_eq_zero]
    exact chosen
  · exact ⟨initialPool_eq, left ▸ arranges.sound.moveLeft _⟩
  · rw [arranges.initialPool_eq]
    exact arranges_start pool

theorem arranges_dispatchAll {pool : List Placeholder} {journal : Journal}
    (arranges : Arranges pool journal.arrangement) (commands : List Record.Fields) :
    Arranges pool (journal.dispatchAll commands).arrangement :=
  journal.dispatchAll_induction (fun applied => arranges_of_edit (edit_of_apply applied)) arranges
    commands

/-- The placeholders of the pool and of all steps. -/
def held (a : Arrangement) : List Placeholder :=
  a.pool ++ a.steps.flatMap (·.fields)

theorem contentOf_held (a : Arrangement) : contentOf a.held = a.contents.total := by
  simp [held, contents, Contents.total, contentOf_flatMap]

namespace Arranges

variable {pool : List Placeholder} {a : Arrangement}

theorem contentOf_held_eq (arranges : Arranges pool a) : contentOf a.held = contentOf pool :=
  a.contentOf_held.trans arranges.sound.total_eq

/-- Pool and steps together have the tags of the initial pool. -/
theorem tagsOf_held_perm (arranges : Arranges pool a) : (tagsOf a.held).Perm (tagsOf pool) := by
  have tags_eq := congrArg (Multiset.map Lasting.fullTagName) arranges.contentOf_held_eq
  simp only [contentOf, Multiset.map_coe, List.map_map] at tags_eq
  exact Multiset.coe_eq_coe.mp tags_eq

theorem exists_mem_pool (arranges : Arranges pool a) {p : Placeholder} (pMem : p ∈ a.held) :
    ∃ q ∈ pool, q.lasting = p.lasting := by
  have inContent : p.lasting ∈ contentOf a.held := List.mem_map_of_mem pMem
  rw [arranges.contentOf_held_eq] at inContent
  exact List.mem_map.mp inContent

theorem disjoint_of_apart {first second : List Placeholder}
    (apart : Contents.Apart (contentOf first) (contentOf second)) :
    (first.map (·.fullTagName)).Disjoint (second.map (·.fullTagName)) := by
  intro tag firstMem secondMem
  rcases List.mem_map.mp firstMem with ⟨p, pMem, rfl⟩
  rcases List.mem_map.mp secondMem with ⟨q, qMem, tags_eq⟩
  exact apart p.lasting (List.mem_map_of_mem pMem) q.lasting (List.mem_map_of_mem qMem) tags_eq.symm

theorem poolTags_disjoint (arranges : Arranges pool a) {step : Step} (stepMem : step ∈ a.steps) :
    a.poolTags.Disjoint step.tags :=
  disjoint_of_apart (arranges.sound.pool_apart _ (List.mem_map_of_mem stepMem))

theorem steps_disjoint (arranges : Arranges pool a) :
    a.steps.Pairwise fun first second => first.tags.Disjoint second.tags :=
  (List.pairwise_map.mp arranges.sound.steps_apart).imp disjoint_of_apart

theorem fields_ne_nil (arranges : Arranges pool a) {step : Step} (stepMem : step ∈ a.steps) :
    step.fields ≠ [] := by
  intro empty
  apply arranges.sound.steps_filled (contentOf step.fields) (List.mem_map_of_mem stepMem)
  rw [empty, contentOf_nil]

end Arranges

/-- After any run of commands pool and steps together hold what the initial pool held,
order, options and value types aside; every tag stands in one container only; and no
step is empty. -/
theorem dispatchAll_conserves (placeholders : List Placeholder) (settings : Option Settings)
    (limit : Nat) (commands : List Record.Fields) :
    let initial := create placeholders settings
    let a := ((Journal.create placeholders settings limit).dispatchAll commands).arrangement
    Multiset.ofList (a.held.map lasting) = Multiset.ofList (initial.pool.map lasting) ∧
      ((∀ step ∈ a.steps, a.poolTags.Disjoint step.tags) ∧
        a.steps.Pairwise fun first second => first.tags.Disjoint second.tags) ∧
      ∀ step ∈ a.steps, step.fields ≠ [] := by
  intro initial a
  have arranges : Arranges initial.pool a :=
    arranges_dispatchAll (arranges_create placeholders settings) commands
  exact ⟨arranges.contentOf_held_eq,
    ⟨fun _ stepMem => arranges.poolTags_disjoint stepMem, arranges.steps_disjoint⟩,
    fun _ stepMem => arranges.fields_ne_nil stepMem⟩

end Stencil.Arrangement
