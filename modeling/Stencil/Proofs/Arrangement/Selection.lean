import Stencil.Arrangement.Change
import Stencil.Proofs.Distinct
import Stencil.Proofs.Placeholder.Group

/-!
# Selecting groups and steps

A selection is changed by giving some tags one state; what the others have is left to them.  The
members of a group in the pool are counted as one item, and they are told apart from everything
else in the pool by how their tags begin.  So a group that is selected as a whole, or deselected
as a whole, changes the number of selected items by one, whatever else is selected.
-/

namespace Stencil

open Placeholder

namespace Arrangement

/-- The number of items among placeholders when those of one group count as one. -/
def itemCount (group : Placeholder → Option String) (fields : List Placeholder) : Nat :=
  (fields.filter fun p => (group p).isNone).length + (distinct (fields.filterMap group)).length

theorem selectedPoolCount_eq (a : Arrangement) :
    a.selectedPoolCount = itemCount groupName a.selectedPool :=
  rfl

theorem nodup_distinct (names : List String) : (distinct names).Nodup :=
  nodup_addAllNew List.nodup_nil names

@[simp]
theorem mem_distinct {names : List String} {name : String} :
    name ∈ distinct names ↔ name ∈ names := by
  change name ∈ addAllNew [] names ↔ _
  simp

/-- The distinct names are, but for their order, any list of the names without repetition. -/
theorem perm_distinct_of_mem_iff {names others : List String} (nodup : others.Nodup)
    (mem_iff : ∀ name, name ∈ others ↔ name ∈ names) : others.Perm (distinct names) := by
  apply (List.perm_ext_iff_of_nodup nodup (nodup_distinct names)).mpr
  intro name
  rw [mem_iff, mem_distinct]

/-- With one more name there is one more distinct name. -/
theorem length_distinct_of_mem_iff {names more : List String} {name : String}
    (new : name ∉ names) (mem_iff : ∀ other, other ∈ more ↔ other = name ∨ other ∈ names) :
    (distinct more).length = (distinct names).length + 1 := by
  have nodup : (name :: distinct names).Nodup :=
    List.nodup_cons.mpr ⟨by simpa using new, nodup_distinct names⟩
  have perm : (name :: distinct names).Perm (distinct more) :=
    perm_distinct_of_mem_iff nodup (by simp [mem_iff])
  exact perm.length_eq.symm

variable {a b : Arrangement} {tags : List String} {chosen : Bool}

/-- Another arrangement in which some tags have one state and nothing else has changed. -/
structure Settles (a : Arrangement) (tags : List String) (chosen : Bool) (b : Arrangement) :
    Prop where
  pool_eq : b.pool = a.pool
  steps_eq : b.steps = a.steps
  initialPool_eq : b.initialPool = a.initialPool
  uniform : ∀ tag ∈ tags, b.isSelected tag = chosen
  others : ∀ tag, tag ∉ tags → b.isSelected tag = a.isSelected tag

theorem isSelected_setSelected (a : Arrangement) (tags : List String) (chosen : Bool)
    (tag : String) :
    (a.setSelected tags chosen).isSelected tag = if tag ∈ tags then chosen else a.isSelected tag := by
  rw [Bool.eq_iff_iff, isSelected, List.contains_iff_mem]
  cases chosen with
  | false => by_cases tagMem : tag ∈ tags <;> simp [setSelected, deselectTags, isSelected, tagMem]
  | true =>
      change tag ∈ addAllNew a.selected tags ↔ _
      by_cases tagMem : tag ∈ tags <;> simp [isSelected, tagMem]

theorem settles_setSelected (a : Arrangement) (tags : List String) (chosen : Bool) :
    a.Settles tags chosen (a.setSelected tags chosen) where
  pool_eq := rfl
  steps_eq := rfl
  initialPool_eq := rfl
  uniform tag tagMem := by rw [isSelected_setSelected, if_pos tagMem]
  others tag other := by rw [isSelected_setSelected, if_neg other]

/-- What has one state can be brought back to it. -/
theorem Settles.flip (settles : a.Settles tags chosen b) {before : Bool}
    (uniform : ∀ tag ∈ tags, a.isSelected tag = before) : b.Settles tags before a where
  pool_eq := settles.pool_eq.symm
  steps_eq := settles.steps_eq.symm
  initialPool_eq := settles.initialPool_eq.symm
  uniform := uniform
  others tag other := (settles.others tag other).symm

theorem isMember_iff {group tag : String} :
    isMember group tag = true ↔ (group ++ ".").toList <+: tag.toList := by
  rw [isMember, List.isPrefixOf_iff_prefix, String.toList_append]
  rfl

/-- The members of a group are the tags of the pool that begin with its name and a dot. -/
theorem mem_memberTags_iff {group tag : String} :
    tag ∈ a.memberTags group ↔ tag ∈ a.poolTags ∧ (group ++ ".").toList <+: tag.toList := by
  simp only [memberTags, groupMembers, poolTags, List.mem_map, List.mem_filter, isMember_iff]
  constructor
  · rintro ⟨p, ⟨pMem, begins⟩, rfl⟩
    exact ⟨⟨p, pMem, rfl⟩, begins⟩
  · rintro ⟨⟨p, pMem, rfl⟩, begins⟩
    exact ⟨p, ⟨pMem, begins⟩, rfl⟩

/-- The members of a group in the pool are the placeholders that are counted with it. -/
theorem fullTagName_mem_memberTags_iff {group : String} (undotted : groupMark ∉ group.toList)
    {p : Placeholder} (pMem : p ∈ a.pool) :
    p.fullTagName ∈ a.memberTags group ↔ p.groupName = some group := by
  rw [mem_memberTags_iff, groupName_eq_some_iff]
  constructor
  · rintro ⟨_, begins⟩
    exact ⟨undotted, begins⟩
  · rintro ⟨_, begins⟩
    exact ⟨List.mem_map_of_mem pMem, begins⟩

section Groups

variable {group : String} (undotted : groupMark ∉ group.toList)
include undotted

/-- What is not counted with a group keeps its selection when the group is given one state. -/
theorem Settles.isSelected_eq (settles : a.Settles (a.memberTags group) chosen b)
    {p : Placeholder} (pMem : p ∈ a.pool) (other : p.groupName ≠ some group) :
    b.isSelected p.fullTagName = a.isSelected p.fullTagName :=
  settles.others _ fun tagMem => other ((fullTagName_mem_memberTags_iff undotted pMem).mp tagMem)

theorem Settles.ungrouped_eq (settles : a.Settles (a.memberTags group) chosen b) :
    (b.selectedPool.filter fun p => p.groupName.isNone) =
      a.selectedPool.filter fun p => p.groupName.isNone := by
  rw [selectedPool, selectedPool, settles.pool_eq, List.filter_filter, List.filter_filter]
  apply List.filter_congr
  intro p pMem
  cases named : p.groupName with
  | none => rw [settles.isSelected_eq undotted pMem (by simp [named])]
  | some name => rfl

/-- A group that has members in the pool joins the groups that have something selected. -/
theorem Settles.mem_selectedGroups_iff (settles : a.Settles (a.memberTags group) true b)
    (filled : a.memberTags group ≠ []) {name : String} :
    name ∈ b.selectedPool.filterMap groupName ↔
      name = group ∨ name ∈ a.selectedPool.filterMap groupName := by
  simp only [List.mem_filterMap, selectedPool, List.mem_filter, settles.pool_eq]
  by_cases same : name = group
  · subst same
    obtain ⟨tag, tagMem⟩ := List.exists_mem_of_ne_nil _ filled
    obtain ⟨p, pMem, rfl⟩ := List.mem_map.mp (mem_memberTags_iff.mp tagMem).1
    have named := (fullTagName_mem_memberTags_iff undotted pMem).mp tagMem
    exact iff_of_true ⟨p, ⟨pMem, settles.uniform _ tagMem⟩, named⟩ (.inl rfl)
  · have kept {p : Placeholder} (pMem : p ∈ a.pool) (named : p.groupName = some name) :
        b.isSelected p.fullTagName = a.isSelected p.fullTagName :=
      settles.isSelected_eq undotted pMem (by simp [named, same])
    constructor
    · rintro ⟨p, ⟨pMem, selected⟩, named⟩
      exact .inr ⟨p, ⟨pMem, by rwa [← kept pMem named]⟩, named⟩
    · rintro (equal | ⟨p, ⟨pMem, selected⟩, named⟩)
      · exact absurd equal same
      · exact ⟨p, ⟨pMem, by rwa [kept pMem named]⟩, named⟩

theorem notMem_selectedGroups
    (unselected : ∀ tag ∈ a.memberTags group, a.isSelected tag = false) :
    group ∉ a.selectedPool.filterMap groupName := by
  intro groupMem
  obtain ⟨p, pMem, named⟩ := List.mem_filterMap.mp groupMem
  obtain ⟨pMem, selected⟩ := List.mem_filter.mp pMem
  rw [unselected _ ((fullTagName_mem_memberTags_iff undotted pMem).mpr named)] at selected
  cases selected

/-- Selecting all members of a group of which none was selected adds one item. -/
theorem Settles.selectedPoolCount_eq (settles : a.Settles (a.memberTags group) true b)
    (filled : a.memberTags group ≠ [])
    (unselected : ∀ tag ∈ a.memberTags group, a.isSelected tag = false) :
    b.selectedPoolCount = a.selectedPoolCount + 1 := by
  have groups_eq : (distinct (b.selectedPool.filterMap groupName)).length =
      (distinct (a.selectedPool.filterMap groupName)).length + 1 :=
    length_distinct_of_mem_iff (notMem_selectedGroups undotted unselected) fun _ =>
      settles.mem_selectedGroups_iff undotted filled
  rw [Arrangement.selectedPoolCount_eq, Arrangement.selectedPoolCount_eq, itemCount, itemCount,
    settles.ungrouped_eq undotted, groups_eq, Nat.add_assoc]

end Groups

/-- Flipping a group gives its members one state: the opposite of the tag's own when it is one of
them, and otherwise the opposite of all being selected. -/
theorem toggleSelect_eq_setSelected {tag : String} (filled : a.memberTags (groupOf tag) ≠ []) :
    a.toggleSelect tag true =
      a.setSelected (a.memberTags (groupOf tag))
        (if tag ∈ a.memberTags (groupOf tag) then !a.isSelected tag
          else !(a.memberTags (groupOf tag)).all a.isSelected) := by
  have notEmpty : (a.memberTags (groupOf tag)).isEmpty = false := by simpa using filled
  simp only [toggleSelect, if_true, notEmpty, Bool.false_eq_true, if_false, isGroupSelected,
    Bool.not_false, Bool.true_and, List.contains_iff_mem]
  split <;> rfl

theorem toggleGroup_eq_setSelected {group : String} (filled : a.memberTags group ≠ []) :
    a.toggleGroup group =
      a.setSelected (a.memberTags group) (!(a.memberTags group).all a.isSelected) := by
  have notEmpty : (a.memberTags group).isEmpty = false := by simpa using filled
  simp only [toggleGroup, notEmpty, Bool.false_eq_true, if_false]

theorem toggleStep_eq_setSelected {index : Nat} {step : Step}
    (found : a.steps[index]? = some step) :
    a.toggleStep index = a.setSelected step.tags (!step.tags.all a.isSelected) := by
  simp only [toggleStep, found]

/-- Where all members of a group have one state, they are flipped to the other, whether the group
is flipped by one of them or not. -/
theorem flipped_of_uniform {members : List String} {tag : String} {before : Bool}
    (filled : members ≠ []) (uniform : ∀ member ∈ members, a.isSelected member = before) :
    (if tag ∈ members then !a.isSelected tag else !members.all a.isSelected) = !before := by
  have all_eq : members.all a.isSelected = before := by
    obtain ⟨first, firstMem⟩ := List.exists_mem_of_ne_nil _ filled
    cases before with
    | false => exact List.all_eq_false.mpr ⟨first, firstMem, by simp [uniform first firstMem]⟩
    | true => exact List.all_eq_true.mpr uniform
  split
  · next tagMem => rw [uniform tag tagMem]
  · rw [all_eq]

/-- Flipping a group with one state adds the group to what is counted or takes it away. -/
theorem selectedPoolCount_toggleSelect {tag : String} (filled : a.memberTags (groupOf tag) ≠ []) :
    ((∀ member ∈ a.memberTags (groupOf tag), a.isSelected member = false) →
        (a.toggleSelect tag true).selectedPoolCount = a.selectedPoolCount + 1) ∧
      ((∀ member ∈ a.memberTags (groupOf tag), a.isSelected member = true) →
        (a.toggleSelect tag true).selectedPoolCount + 1 = a.selectedPoolCount) := by
  have undotted := undotted_groupOf tag
  rw [toggleSelect_eq_setSelected filled]
  constructor
  · intro unselected
    rw [flipped_of_uniform filled unselected]
    exact (a.settles_setSelected _ true).selectedPoolCount_eq undotted filled unselected
  · intro selected
    rw [flipped_of_uniform filled selected]
    -- seen from behind, a group is selected of which nothing was
    have settles := a.settles_setSelected (a.memberTags (groupOf tag)) false
    exact ((settles.flip selected).selectedPoolCount_eq undotted filled settles.uniform).symm

/-- Flipping a group of the pool, by a tag or by its name, and flipping a step give one state to
all tags of the group or the step and leave everything else as it was.  When none of the group
was selected, one item more is selected afterwards, and one less when all were. -/
theorem toggling_is_atomic (a : Arrangement) (tag : String) :
    let members := a.memberTags (groupOf tag)
    let toggled := a.toggleSelect tag true
    (∀ other, other ∈ members ↔
        other ∈ a.poolTags ∧ (groupOf tag ++ ".").toList <+: other.toList) ∧
      (members ≠ [] →
        a.Settles members
            (if tag ∈ members then !a.isSelected tag else !members.all a.isSelected) toggled ∧
          ((∀ member ∈ members, a.isSelected member = false) →
            toggled.selectedPoolCount = a.selectedPoolCount + 1) ∧
          ((∀ member ∈ members, a.isSelected member = true) →
            toggled.selectedPoolCount + 1 = a.selectedPoolCount) ∧
          a.Settles members (!members.all a.isSelected) (a.toggleGroup (groupOf tag))) ∧
      ∀ index step, a.steps[index]? = some step →
        a.Settles step.tags (!step.tags.all a.isSelected) (a.toggleStep index) := by
  intro members toggled
  refine ⟨fun _ => mem_memberTags_iff, ?_, ?_⟩
  · intro filled
    obtain ⟨more, less⟩ := selectedPoolCount_toggleSelect filled
    refine ⟨?_, more, less, ?_⟩
    · change a.Settles members _ (a.toggleSelect tag true)
      rw [toggleSelect_eq_setSelected filled]
      exact a.settles_setSelected _ _
    · rw [toggleGroup_eq_setSelected filled]
      exact a.settles_setSelected _ _
  · intro index step found
    rw [toggleStep_eq_setSelected found]
    exact a.settles_setSelected _ _

/-- An arrangement with a group of which nothing is selected, a selected tag that is the name of
the group, and a selected tag that stands in a step. -/
def namesakeSelected : Arrangement :=
  { pool := ["Party.Name", "Party", "Party.Born", "Partying.Name"].map fun tag =>
      { fullTagName := tag }
    steps := [{ title := .str "Step 1", fields := [{ fullTagName := "Date" }] }]
    selected := ["Party", "Date"] }

theorem toggling_namesakeSelected_is_atomic :
    namesakeSelected.memberTags "Party" = ["Party.Name", "Party.Born"] ∧
      namesakeSelected.Settles ["Party.Name", "Party.Born"] true
        (namesakeSelected.toggleSelect "Party" true) ∧
      (namesakeSelected.toggleSelect "Party" true).selectedPoolCount =
        namesakeSelected.selectedPoolCount + 1 ∧
      namesakeSelected.Settles ["Date"] false (namesakeSelected.toggleStep 0) := by
  obtain ⟨_, group, step⟩ := toggling_is_atomic namesakeSelected "Party"
  have filled : namesakeSelected.memberTags (groupOf "Party") ≠ [] := by decide +kernel
  have unselected : ∀ member ∈ namesakeSelected.memberTags (groupOf "Party"),
      namesakeSelected.isSelected member = false := by decide +kernel
  exact ⟨by decide +kernel, (group filled).1, (group filled).2.1 unselected, step 0 _ rfl⟩

end Arrangement

end Stencil
