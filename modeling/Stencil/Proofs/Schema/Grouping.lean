import Stencil.Proofs.Arrangement.Moves
import Stencil.Proofs.Schema.Structure

/-!
# Selected groups and compiled groups

What an operator counts as one item is meant to become one entry of the form.  The count goes by
the names before the first dots of the tags, and a form has an entry for each of these names and
for each tag without a dot.  They part where a tag ends with its only dot: it is counted with the
group that it names, but it is no member of that group and is compiled to a field of its own.
-/

namespace Stencil

open Placeholder Arrangement

namespace Placeholder

/-- The names of groups of which no placeholder is a member. -/
def memberlessGroups (fields : List Placeholder) : List String :=
  (distinct (fields.filterMap groupName)).filter fun name =>
    ∀ p ∈ fields, p.memberGroup ≠ some name

theorem groupName_ne_none_of_isMemberless {p : Placeholder} (memberless : p.IsMemberless) :
    p.groupName ≠ none := by
  rw [groupName, if_pos (isMemberless_iff.mp memberless).1]
  exact Option.some_ne_none _

theorem groupName_eq_of_memberGroup {p : Placeholder} {name : String}
    (named : p.memberGroup = some name) : p.groupName = some name := by
  unfold memberGroup at named
  split at named
  · cases named
  · exact named

theorem length_filter_memberGroup_isNone (fields : List Placeholder) :
    (fields.filter fun p => p.memberGroup.isNone).length =
      (fields.filter fun p => p.groupName.isNone).length +
        (fields.filter fun p => p.IsMemberless).length := by
  induction fields with
  | nil => rfl
  | cons p rest ih =>
      by_cases memberless : p.IsMemberless
      · have named := groupName_ne_none_of_isMemberless memberless
        simp [memberGroup, memberless, named] at ih ⊢
        omega
      · cases named : p.groupName <;> simp [memberGroup, memberless, named] at ih ⊢ <;> omega

/-- The groups that have members are the named ones without the memberless ones. -/
theorem length_distinct_memberGroup (fields : List Placeholder) :
    (distinct (fields.filterMap memberGroup)).length + (memberlessGroups fields).length =
      (distinct (fields.filterMap groupName)).length := by
  let names := distinct (fields.filterMap groupName)
  have perm : (names.filter fun name => !decide (∀ p ∈ fields, p.memberGroup ≠ some name)).Perm
      (distinct (fields.filterMap memberGroup)) := by
    apply perm_distinct_of_mem_iff ((nodup_distinct _).filter _)
    intro name
    simp only [List.mem_filter, mem_distinct, List.mem_filterMap, Bool.not_eq_true',
      decide_eq_false_iff_not, not_forall, not_not]
    constructor
    · rintro ⟨_, p, pMem, named⟩
      exact ⟨p, pMem, named⟩
    · rintro ⟨p, pMem, named⟩
      exact ⟨⟨p, pMem, groupName_eq_of_memberGroup named⟩, p, pMem, named⟩
  rw [← perm.length_eq, Nat.add_comm]
  exact (List.length_eq_length_filter_add fun name =>
    decide (∀ p ∈ fields, p.memberGroup ≠ some name)).symm

/-- Counted by their members' groups, placeholders make up one item more for each that is no
member of the group it names, and one less for each group that has no other. -/
theorem itemCount_memberGroup (fields : List Placeholder) :
    itemCount memberGroup fields + (memberlessGroups fields).length =
      itemCount groupName fields + (fields.filter fun p => p.IsMemberless).length := by
  rw [itemCount, itemCount, length_filter_memberGroup_isNone, ← length_distinct_memberGroup]
  omega

end Placeholder

namespace FormStep

/-- The entries of a compiled step follow a way to group placeholders: there is one field for each
placeholder without a group and one group, with that name as its key, for each name. -/
structure IsGroupedBy (compiled : FormStep) (group : Placeholder → Option String)
    (fields : List Placeholder) : Prop where
  parts : compiled.fields =
    compiled.standalone.map .standalone ++ compiled.groups.map .repeatable
  standalone : compiled.standalone.map (·.fullTagName) =
    tagsOf (fields.filter fun p => (group p).isNone)
  groups_nodup : (compiled.groups.map (·.key)).Nodup
  mem_groups_iff : ∀ key, key ∈ compiled.groups.map (·.key) ↔ ∃ p ∈ fields, group p = some key

variable {compiled : FormStep} {group other : Placeholder → Option String}
  {fields : List Placeholder}

/-- A step has as many entries as the way of grouping counts items. -/
theorem IsGroupedBy.length_fields (grouped : compiled.IsGroupedBy group fields) :
    compiled.fields.length = itemCount group fields := by
  have standalone_eq := congrArg List.length grouped.standalone
  rw [List.length_map, List.length_map] at standalone_eq
  have keys_perm : (compiled.groups.map (·.key)).Perm (distinct (fields.filterMap group)) := by
    apply perm_distinct_of_mem_iff grouped.groups_nodup
    intro key
    rw [grouped.mem_groups_iff, List.mem_filterMap]
  have groups_eq := keys_perm.length_eq
  rw [List.length_map] at groups_eq
  rw [grouped.parts, List.length_append, List.length_map, List.length_map, standalone_eq,
    groups_eq, itemCount]

theorem IsGroupedBy.congr (grouped : compiled.IsGroupedBy group fields)
    (same : ∀ p ∈ fields, group p = other p) : compiled.IsGroupedBy other fields where
  parts := grouped.parts
  standalone := by
    rw [grouped.standalone]
    congr 1
    exact List.filter_congr fun p pMem => by rw [same p pMem]
  groups_nodup := grouped.groups_nodup
  mem_groups_iff key := by
    rw [grouped.mem_groups_iff]
    exact exists_congr fun p => and_congr_right fun pMem => by rw [same p pMem]

theorem tagsOf_filter_standsAlone (fields : List Placeholder) :
    tagsOf (fields.filter fun p => StandsAlone p) =
      (tagsOf fields).filter fun tag => memberOf tag == "" := by
  rw [List.filter_map]
  congr 1
  apply List.filter_congr
  intro p _
  rw [Bool.eq_iff_iff, decide_eq_true_iff, standsAlone_iff, Function.comp_apply, beq_iff_eq]

theorem exists_mem_inGroup_iff {fields : List Placeholder} {key : String} :
    (∃ p ∈ fields, InGroup key p) ↔ ∃ tag ∈ tagsOf fields, ∃ member, IsParted tag key member := by
  simp [InGroup]

/-- A step that is made of placeholders is compiled by the groups that they are members of. -/
theorem isGroupedBy_memberGroup {types : List FieldType} {title : Json}
    (form : compiled.IsFormOf types (stepOf title fields)) :
    compiled.IsGroupedBy memberGroup fields where
  parts := form.parts
  standalone := by
    have shown : List.Forall₂ (fun field p => field.fullTagName = p.fullTagName)
        compiled.standalone ((numbered fields).filter fun p => StandsAlone p) :=
      form.standalone.imp fun _ _ shows => shows.1.tag
    have tags_eq : compiled.standalone.map (·.fullTagName) =
        tagsOf ((numbered fields).filter fun p => StandsAlone p) := by
      rwa [← List.forall₂_eq_eq_eq, List.forall₂_map_left_iff, List.forall₂_map_right_iff]
    have alone_eq : (fields.filter fun p => p.memberGroup.isNone) =
        fields.filter fun p => StandsAlone p := by
      apply List.filter_congr
      intro p _
      rw [Bool.eq_iff_iff, Option.isNone_iff_eq_none, memberGroup_eq_none_iff, decide_eq_true_iff]
    rw [tags_eq, alone_eq, tagsOf_filter_standsAlone, tagsOf_filter_standsAlone, tagsOf_numbered]
  groups_nodup := form.groups_nodup
  mem_groups_iff key := by
    simp only [memberGroup_eq_some_iff]
    rw [form.mem_groups_iff, exists_mem_inGroup_iff, exists_mem_inGroup_iff, stepOf,
      tagsOf_numbered]

theorem holdsTexts_stepOf_iff {title : String} {fields : List Placeholder} :
    (stepOf (.str title) fields).HoldsTexts ↔ ∀ p ∈ fields, p.IsTextTyped := by
  have by_ids (fields : List Placeholder) : (∀ p ∈ fields, p.IsTextTyped) ↔
      ∀ id ∈ fields.map (·.fieldTypeId), ∃ text, id = .str text := by
    simp [IsTextTyped]
  have ids_eq : (numbered fields).map (·.fieldTypeId) = fields.map (·.fieldTypeId) :=
    map_numbered (fun _ _ => rfl) fields
  constructor
  · intro texts
    rw [by_ids, ← ids_eq, ← by_ids]
    exact texts.typed
  · intro typed
    refine ⟨⟨title, rfl⟩, ?_⟩
    change ∀ p ∈ numbered fields, p.IsTextTyped
    rwa [by_ids, ids_eq, ← by_ids]

/-- The entries follow the names before the first dots exactly when none of the tags ends with its
only dot. -/
theorem IsGroupedBy.agrees_iff (grouped : compiled.IsGroupedBy memberGroup fields) :
    compiled.IsGroupedBy groupName fields ∧ compiled.fields.length = itemCount groupName fields ↔
      ∀ p ∈ fields, ¬p.IsMemberless := by
  constructor
  · rintro ⟨byName, _⟩ p pMem memberless
    have alone : p.fullTagName ∈ tagsOf (fields.filter fun p => p.memberGroup.isNone) :=
      List.mem_map_of_mem (List.mem_filter.mpr ⟨pMem, by simp [memberGroup, memberless]⟩)
    rw [← grouped.standalone, byName.standalone] at alone
    obtain ⟨q, qMem, tag_eq⟩ := List.mem_map.mp alone
    have unnamed : q.groupName = none :=
      Option.isNone_iff_eq_none.mp (List.mem_filter.mp qMem).2
    apply groupName_ne_none_of_isMemberless memberless
    rw [groupName, ← tag_eq]
    exact unnamed
  · intro members
    have byName : compiled.IsGroupedBy groupName fields :=
      grouped.congr fun p pMem => if_neg (members p pMem)
    exact ⟨byName, byName.length_fields⟩

/-- When some item is selected, moving to the right makes a step that compiles whenever the value
types are texts.  It compiles to one group for each group with a selected member and one field for
each other selected placeholder, which is as many entries as there are items selected, one more for
each tag that ends with its only dot, and one less for each name that only such tags bear.  So
selection and form agree exactly when no selected tag ends with its only dot. -/
theorem grouping_of_moveRight (context : CompileContext) (a : Arrangement)
    (counted : 0 < a.selectedPoolCount) :
    ∃ step, a.moveRight.steps = a.steps ++ [step] ∧
      ((∃ compiled, compile context step = .ok compiled) ↔
        ∀ p ∈ a.selectedPool, p.IsTextTyped) ∧
      ∀ compiled, compile context step = .ok compiled →
        compiled.IsGroupedBy memberGroup a.selectedPool ∧
        compiled.fields.length + (memberlessGroups a.selectedPool).length =
          a.selectedPoolCount + (a.selectedPool.filter fun p => p.IsMemberless).length ∧
        (compiled.IsGroupedBy groupName a.selectedPool ∧
            compiled.fields.length = a.selectedPoolCount ↔
          ∀ p ∈ a.selectedPool, ¬p.IsMemberless) := by
  rw [moveRight_of_selected (selectedPoolCount_pos_iff.mp counted)]
  refine ⟨_, rfl, ?_, ?_⟩
  · simp only [compile_eq_ok_iff, holdsTexts_stepOf_iff, exists_and_left, exists_eq, and_true]
  · intro compiled compiled_eq
    obtain ⟨texts, rfl⟩ := compile_eq_ok_iff.mp compiled_eq
    have grouped := isGroupedBy_memberGroup (isFormOf_ofStep context texts)
    refine ⟨grouped, ?_, grouped.agrees_iff⟩
    rw [grouped.length_fields, itemCount_memberGroup]
    rfl

/-- An arrangement with two tags that end with their only dot, of which one names a group that has
members in the pool and the other one that has none. -/
def endingTags : Arrangement :=
  { pool := ["Party.Name", "Date", "Party.", ".Since", "Party.Born", "Other."].map fun tag =>
      { fullTagName := tag }
    selected := ["Other.", "Party.", "Date", ".Since", "Party.Name"] }

theorem grouping_of_endingTags :
    0 < endingTags.selectedPoolCount ∧
      ∃ step compiled, endingTags.moveRight.steps = [step] ∧ compile {} step = .ok compiled ∧
        compiled.IsGroupedBy memberGroup endingTags.selectedPool ∧ compiled.fields.length = 5 := by
  have counted : 0 < endingTags.selectedPoolCount := by decide
  obtain ⟨step, steps_eq, compiles_iff, compiled_is⟩ := grouping_of_moveRight {} endingTags counted
  have typed : ∀ p ∈ endingTags.selectedPool, p.IsTextTyped := by
    intro p pMem
    obtain ⟨_, _, rfl⟩ := List.mem_map.mp (List.mem_of_mem_filter pMem)
    exact ⟨"", rfl⟩
  obtain ⟨compiled, compiled_eq⟩ := compiles_iff.mpr typed
  obtain ⟨grouped, length_eq, _⟩ := compiled_is compiled compiled_eq
  have counts : endingTags.selectedPoolCount = 4 ∧
      (memberlessGroups endingTags.selectedPool).length = 1 ∧
      (endingTags.selectedPool.filter fun p => p.IsMemberless).length = 2 := by
    decide
  exact ⟨counted, step, compiled, steps_eq, compiled_eq, grouped, by omega⟩

/-- A tag that ends with its only dot counts as one item together with a member of the group that
it names, but the two are compiled to two entries. -/
theorem memberless_tag_stands_alone :
    let a : Arrangement :=
      { pool := [{ fullTagName := "A." }, { fullTagName := "A.b" }], selected := ["A.", "A.b"] }
    a.selectedPoolCount = 1 ∧
      ∃ step compiled, a.moveRight.steps = [step] ∧ compile {} step = .ok compiled ∧
        compiled.fields.map (·.key) = ["A.", "A"] :=
  ⟨by decide, _, _, rfl, rfl, by decide⟩

end FormStep

end Stencil
