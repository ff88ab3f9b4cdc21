import Mathlib.Data.List.Induction
import Stencil.Proofs.Distinct
import Stencil.Schema.Compile

/-!
# Collecting the fields of a step

The fields of a step are compiled in one pass.  At every point of it the fields that stand alone
and those of each group come from the placeholders so far, in their order, and the groups are in
the order in which their first members were met.
-/

namespace Stencil

open Placeholder

namespace FormGroup

@[simp]
theorem fields_withExamples (context : CompileContext) (group : FormGroup) :
    (group.withExamples context).fields = group.fields := by
  unfold withExamples
  split <;> rfl

@[simp]
theorem key_withExamples (context : CompileContext) (group : FormGroup) :
    (group.withExamples context).key = group.key := by
  unfold withExamples
  split <;> rfl

variable {groups : List FormGroup} {name : String}

theorem addMember_of_notMem (new : name ∉ groups.map (·.key)) (field : FormField) :
    addMember groups name field =
      groups ++ [{ label := name, key := name, fields := [field] }] := by
  induction groups with
  | nil => rfl
  | cons group rest ih =>
      simp only [List.map_cons, List.mem_cons, not_or] at new
      simp [addMember, Ne.symm new.1, ih new.2]

theorem addMember_of_mem (nodup : (groups.map (·.key)).Nodup) (old : name ∈ groups.map (·.key))
    (field : FormField) :
    addMember groups name field = groups.map fun group =>
      if group.key = name then { group with fields := group.fields ++ [field] } else group := by
  induction groups with
  | nil => exact absurd old List.not_mem_nil
  | cons group rest ih =>
      obtain ⟨groupNew, restNodup⟩ := List.nodup_cons.mp nodup
      by_cases same : group.key = name
      · have others : ∀ other ∈ rest,
            (if other.key = name then { other with fields := other.fields ++ [field] }
              else other) = other := by
          intro other otherMem
          refine if_neg fun otherSame => groupNew ?_
          exact List.mem_map.mpr ⟨other, otherMem, otherSame.trans same.symm⟩
        simp [addMember, same, List.map_congr_left others]
      · have later : name ∈ rest.map (·.key) :=
          (List.mem_cons.mp old).resolve_left (Ne.symm same)
        simp [addMember, same, ih restNodup later]

end FormGroup

namespace FormStep

/-- The fields of a step that stand alone. -/
def standaloneFields (context : CompileContext) (fields : List Placeholder) : List FormField :=
  (fields.filter fun p => !isMember p).map fun p => .ofPlaceholder context (keyOf p) p

/-- The groups of a step, in the order of their first members. -/
def groupKeys (fields : List Placeholder) : List String :=
  addAllNew [] ((fields.filter isMember).map fun p => groupOf p.fullTagName)

/-- The fields of a group. -/
def groupFields (context : CompileContext) (fields : List Placeholder) (group : String) :
    List FormField :=
  ((fields.filter isMember).filter fun p => groupOf p.fullTagName == group).map fun p =>
    .ofPlaceholder context (keyOf p) p

/-- The group with a name, without example records. -/
def groupNamed (context : CompileContext) (fields : List Placeholder) (group : String) :
    FormGroup :=
  { label := group, key := group, fields := groupFields context fields group }

theorem nodup_groupKeys (fields : List Placeholder) : (groupKeys fields).Nodup :=
  nodup_addAllNew List.nodup_nil _

variable {fields : List Placeholder} {p : Placeholder}

theorem groupOf_mem_groupKeys (pMem : p ∈ fields.filter isMember) :
    groupOf p.fullTagName ∈ groupKeys fields :=
  mem_addAllNew.mpr (.inr (List.mem_map_of_mem pMem))

theorem groupFields_eq_nil_iff {context : CompileContext} {group : String} :
    groupFields context fields group = [] ↔ group ∉ groupKeys fields := by
  rw [groupFields, List.map_eq_nil_iff, List.filter_eq_nil_iff, groupKeys, mem_addAllNew]
  simp

/-- A group of a step has members, so it carries example records in a preview. -/
theorem value_withExamples {context : CompileContext} {group : String}
    (groupMem : group ∈ groupKeys fields) :
    ((groupNamed context fields group).withExamples context).value =
      if context.preview then
        some (List.replicate previewRecordCount
          (FormGroup.exampleRecord context (groupFields context fields group)))
      else none := by
  have given : groupFields context fields group ≠ [] := fun none =>
    groupFields_eq_nil_iff.mp none groupMem
  cases previewed : context.preview <;> simp [FormGroup.withExamples, groupNamed, previewed, given]

theorem standaloneFields_append (context : CompileContext) (alone : isMember p = false) :
    standaloneFields context (fields ++ [p]) =
      standaloneFields context fields ++ [.ofPlaceholder context (keyOf p) p] := by
  simp [standaloneFields, List.filter_append, alone]

theorem groupKeys_append (member : isMember p = true) :
    groupKeys (fields ++ [p]) = addNew (groupKeys fields) (groupOf p.fullTagName) := by
  rw [groupKeys, List.filter_append, List.map_append, addAllNew_append,
    List.filter_cons_of_pos member]
  rfl

theorem groupNamed_append (context : CompileContext) (member : isMember p = true)
    (group : String) :
    groupNamed context (fields ++ [p]) group =
      if group = groupOf p.fullTagName then
        { groupNamed context fields group with
          fields := groupFields context fields group ++ [.ofPlaceholder context (keyOf p) p] }
      else groupNamed context fields group := by
  by_cases same : groupOf p.fullTagName = group
  · simp [groupNamed, groupFields, List.filter_append, member, same]
  · simp [groupNamed, groupFields, List.filter_append, member, same, Ne.symm same]

/-- A member is added to its group, which comes last when it is new. -/
theorem groups_append (context : CompileContext) (member : isMember p = true) :
    (groupKeys (fields ++ [p])).map (groupNamed context (fields ++ [p])) =
      FormGroup.addMember ((groupKeys fields).map (groupNamed context fields))
        (groupOf p.fullTagName) (.ofPlaceholder context (keyOf p) p) := by
  have keys_eq : ((groupKeys fields).map (groupNamed context fields)).map (·.key) =
      groupKeys fields := by
    rw [List.map_map]
    exact List.map_id _
  rw [groupKeys_append member, funext (groupNamed_append context member)]
  by_cases old : groupOf p.fullTagName ∈ groupKeys fields
  · have nodup := nodup_groupKeys fields
    rw [← keys_eq] at nodup
    rw [addNew_of_mem old, FormGroup.addMember_of_mem nodup (by rwa [keys_eq]), List.map_map]
    rfl
  · rw [addNew_of_notMem old, FormGroup.addMember_of_notMem (by rwa [keys_eq]), List.map_append]
    congr 1
    · apply List.map_congr_left
      intro group groupMem
      have other : group ≠ groupOf p.fullTagName := fun same => old (same ▸ groupMem)
      rw [if_neg other]
    · rw [List.map_singleton, if_pos rfl, groupFields_eq_nil_iff.mpr old]
      rfl

/-- What is collected of placeholders: the fields that stand alone and the groups. -/
def collectedOf (context : CompileContext) (fields : List Placeholder) : Collected where
  standalone := standaloneFields context fields
  groups := (groupKeys fields).map (groupNamed context fields)

/-- One more placeholder changes the part it belongs to, at its end, and no other. -/
theorem add_collectedOf (context : CompileContext) (fields : List Placeholder) (p : Placeholder) :
    (collectedOf context fields).add context p = collectedOf context (fields ++ [p]) := by
  by_cases member : isMember p
  · have standalone_eq : standaloneFields context (fields ++ [p]) =
        standaloneFields context fields := by
      simp [standaloneFields, List.filter_append, member]
    rw [Collected.add, if_pos member, collectedOf, collectedOf, standalone_eq,
      groups_append context member]
  · have keys_eq : groupKeys (fields ++ [p]) = groupKeys fields := by
      simp [groupKeys, List.filter_append, member]
    have groups_eq : groupNamed context (fields ++ [p]) = groupNamed context fields := by
      funext group
      simp [groupNamed, groupFields, List.filter_append, member]
    rw [Collected.add, if_neg member, collectedOf, collectedOf, keys_eq, groups_eq,
      standaloneFields_append context (by simpa using member)]

theorem collect_eq (context : CompileContext) (fields : List Placeholder) :
    collect context fields = collectedOf context fields := by
  induction fields using List.reverseRecOn with
  | nil => rfl
  | append_singleton fields p ih =>
      have collect_append : collect context (fields ++ [p]) =
          (collect context fields).add context p := List.foldl_append
      rw [collect_append, ih, add_collectedOf]

theorem entries_eq (context : CompileContext) (fields : List Placeholder) :
    entries context fields = (standaloneFields context fields).map .standalone ++
      (groupKeys fields).map fun group =>
        .repeatable ((groupNamed context fields group).withExamples context) := by
  simp only [entries, collect_eq, collectedOf, List.map_map]
  rfl

end FormStep

end Stencil
