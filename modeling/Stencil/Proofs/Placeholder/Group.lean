import Stencil.Placeholder.Basic
import Stencil.Proofs.Text.Split

/-!
# Groups of tags

A tag is parted at its first dot into a group and a member.  It belongs to that group when the
member is not empty; any other tag, without a dot or with nothing behind its first one, stands
alone.
-/

namespace Stencil.Placeholder

open Text

/-- A tag is the name of a group, which holds no dot, and a member with a dot between them. -/
structure IsParted (tag group member : String) : Prop where
  tag_eq : tag = group ++ "." ++ member
  undotted : groupMark ∉ group.toList
  given : member ≠ ""

theorem isParted_iff {tag group member : String} :
    IsParted tag group member ↔ groupOf tag = group ∧ memberOf tag = member ∧ member ≠ "" := by
  constructor
  · rintro ⟨rfl, undotted, given⟩
    have chars_eq : (group ++ "." ++ member).toList =
        group.toList ++ groupMark :: member.toList := by
      rw [String.toList_append, String.toList_append, List.append_assoc]
      rfl
    have cut := cutAt_eq_some_iff.mpr ⟨undotted, chars_eq⟩
    refine ⟨?_, ?_, given⟩
    · rw [groupOf, cut, String.ofList_toList]
    · rw [memberOf, cut, Option.getD_some, String.ofList_toList]
  · rintro ⟨rfl, rfl, given⟩
    cases behind : (cutAt groupMark tag.toList).2 with
    | none => exact absurd (by rw [memberOf, behind]; rfl) given
    | some after =>
        have cut : cutAt groupMark tag.toList =
            ((groupOf tag).toList, some (memberOf tag).toList) := by
          rw [groupOf, memberOf, String.toList_ofList, String.toList_ofList, behind]
          exact Prod.ext rfl behind
        obtain ⟨undotted, chars_eq⟩ := cutAt_eq_some_iff.mp cut
        refine ⟨String.toList_inj.mp ?_, undotted, given⟩
        rw [chars_eq, String.toList_append, String.toList_append, List.append_assoc]
        rfl

/-- The tag of a placeholder belongs to a group. -/
def InGroup (group : String) (p : Placeholder) : Prop :=
  ∃ member, IsParted p.fullTagName group member

/-- The tag of a placeholder belongs to no group. -/
def StandsAlone (p : Placeholder) : Prop :=
  ∀ group, ¬InGroup group p

theorem inGroup_iff {group : String} {p : Placeholder} :
    InGroup group p ↔ memberOf p.fullTagName ≠ "" ∧ groupOf p.fullTagName = group := by
  constructor
  · rintro ⟨member, parted⟩
    obtain ⟨group_eq, rfl, given⟩ := isParted_iff.mp parted
    exact ⟨given, group_eq⟩
  · rintro ⟨given, group_eq⟩
    exact ⟨_, isParted_iff.mpr ⟨group_eq, rfl, given⟩⟩

theorem standsAlone_iff {p : Placeholder} : StandsAlone p ↔ memberOf p.fullTagName = "" := by
  constructor
  · intro alone
    by_contra given
    exact alone _ (inGroup_iff.mpr ⟨given, rfl⟩)
  · intro empty group inGroup
    exact (inGroup_iff.mp inGroup).1 empty

instance (group : String) (p : Placeholder) : Decidable (InGroup group p) :=
  decidable_of_iff _ inGroup_iff.symm

instance (p : Placeholder) : Decidable (StandsAlone p) :=
  decidable_of_iff _ standsAlone_iff.symm

theorem undotted_groupOf (tag : String) : groupMark ∉ (groupOf tag).toList := by
  rw [groupOf, String.toList_ofList]
  intro markMem
  simpa using List.mem_takeWhile_imp markMem

theorem groupOf_eq_iff {tag group : String} (dotted : isDotted tag = true) :
    groupOf tag = group ↔ groupMark ∉ group.toList ∧ (group ++ ".").toList <+: tag.toList := by
  constructor
  · rintro rfl
    refine ⟨undotted_groupOf tag, ?_⟩
    obtain ⟨before, after, chars_eq, undotted⟩ :=
      List.eq_append_cons_of_mem (List.contains_iff_mem.mp dotted)
    have cut := cutAt_eq_some_iff.mpr ⟨undotted, chars_eq⟩
    refine ⟨after, ?_⟩
    rw [groupOf, cut, String.toList_append, String.toList_ofList, chars_eq, List.append_assoc]
    rfl
  · rintro ⟨undotted, after, chars_eq⟩
    rw [String.toList_append, List.append_assoc] at chars_eq
    have cut := cutAt_eq_some_iff.mpr ⟨undotted, chars_eq.symm⟩
    rw [groupOf, cut, String.ofList_toList]

/-- A placeholder belongs to the group that its tag begins with, followed by a dot. -/
theorem groupName_eq_some_iff {p : Placeholder} {group : String} :
    p.groupName = some group ↔
      groupMark ∉ group.toList ∧ (group ++ ".").toList <+: p.fullTagName.toList := by
  rw [groupName]
  by_cases dotted : isDotted p.fullTagName = true
  · rw [if_pos dotted, Option.some.injEq, groupOf_eq_iff dotted]
  · rw [if_neg dotted]
    simp only [reduceCtorEq, false_iff]
    rintro ⟨_, begins⟩
    apply dotted
    apply List.contains_iff_mem.mpr
    apply begins.subset
    simp [groupMark]

theorem isDotted_of_memberOf_ne {tag : String} (given : memberOf tag ≠ "") :
    isDotted tag = true := by
  have parted : IsParted tag (groupOf tag) (memberOf tag) := isParted_iff.mpr ⟨rfl, rfl, given⟩
  rw [parted.tag_eq]
  simp [isDotted, groupMark]

/-- The tag of a placeholder names a group and nothing of it: its only dot is its end. -/
def IsMemberless (p : Placeholder) : Prop :=
  ∃ group, p.fullTagName = group ++ "." ∧ groupMark ∉ group.toList

theorem isMemberless_iff {p : Placeholder} :
    IsMemberless p ↔ isDotted p.fullTagName = true ∧ memberOf p.fullTagName = "" := by
  constructor
  · rintro ⟨group, tag_eq, undotted⟩
    have chars_eq : p.fullTagName.toList = group.toList ++ [groupMark] := by
      rw [tag_eq, String.toList_append]
      rfl
    have cut := cutAt_eq_some_iff.mpr ⟨undotted, chars_eq⟩
    refine ⟨by simp [isDotted, chars_eq], ?_⟩
    rw [memberOf, cut]
    rfl
  · rintro ⟨dotted, empty⟩
    obtain ⟨before, after, chars_eq, undotted⟩ :=
      List.eq_append_cons_of_mem (List.contains_iff_mem.mp dotted)
    rw [memberOf, cutAt_eq_some_iff.mpr ⟨undotted, chars_eq⟩, Option.getD_some,
      String.ofList_eq_empty_iff] at empty
    refine ⟨String.ofList before, String.toList_inj.mp ?_, by rwa [String.toList_ofList]⟩
    rw [chars_eq, empty, String.toList_append, String.toList_ofList]
    rfl

instance (p : Placeholder) : Decidable (IsMemberless p) :=
  decidable_of_iff _ isMemberless_iff.symm

/-- The group of which a placeholder is a member.  What is named by a group alone is none. -/
def memberGroup (p : Placeholder) : Option String :=
  if p.IsMemberless then none else p.groupName

theorem memberGroup_eq_some_iff {p : Placeholder} {group : String} :
    p.memberGroup = some group ↔ InGroup group p := by
  rw [memberGroup, inGroup_iff, groupName]
  constructor
  · intro named
    split at named
    · cases named
    · next member =>
        split at named
        · next dotted =>
            cases named
            exact ⟨fun empty => member (isMemberless_iff.mpr ⟨dotted, empty⟩), rfl⟩
        · cases named
  · rintro ⟨given, rfl⟩
    rw [if_neg fun memberless => given (isMemberless_iff.mp memberless).2,
      if_pos (isDotted_of_memberOf_ne given)]

theorem memberGroup_eq_none_iff {p : Placeholder} : p.memberGroup = none ↔ StandsAlone p := by
  rw [Option.eq_none_iff_forall_ne_some]
  exact forall_congr' fun group => not_congr memberGroup_eq_some_iff

end Stencil.Placeholder
