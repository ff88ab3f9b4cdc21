import Stencil.Proofs.Placeholder.Group
import Stencil.Proofs.Schema.Texts

/-!
# The structure of a compiled step

A compiled step holds a field for every placeholder whose tag stands alone, followed by a group
for every first segment of the other tags.  Fields, groups and the members of a group come in the
order of the step, every placeholder is compiled once, and its tag can be read off the keys of its
group and of its field.
-/

namespace Stencil

open Placeholder

/-- A name is that of the value type of a placeholder: the declared one, or else that of the first
catalogue entry with its id, or else no name at all. -/
inductive FieldType.Names (types : List FieldType) (p : Placeholder) : String → Prop
  | declared {name : String} (given : p.type = some name) (filled : name ≠ "") : Names types p name
  | catalogued {before after : List FieldType} {entry : FieldType}
      (undeclared : p.type.getD "" = "") (types_eq : types = before ++ entry :: after)
      (others : ∀ other ∈ before, p.fieldTypeId ≠ .str other.id)
      (found : p.fieldTypeId = .str entry.id) : Names types p entry.name
  | unknown (undeclared : p.type.getD "" = "")
      (others : ∀ entry ∈ types, p.fieldTypeId ≠ .str entry.id) : Names types p ""

theorem FieldType.names_nameOf (types : List FieldType) {p : Placeholder}
    (undeclared : p.type.getD "" = "") : Names types p (nameOf types p.fieldTypeId) := by
  unfold nameOf
  cases found : types.find? fun entry => Json.str entry.id == p.fieldTypeId with
  | none =>
      refine .unknown undeclared fun entry entryMem id_eq => ?_
      exact List.find?_eq_none.mp found entry entryMem (beq_iff_eq.mpr id_eq.symm)
  | some entry =>
      obtain ⟨passes, before, after, types_eq, others⟩ := List.find?_eq_some_iff_append.mp found
      refine .catalogued undeclared types_eq (fun other otherMem id_eq => ?_)
        (beq_iff_eq.mp passes).symm
      exact absurd (beq_iff_eq.mpr id_eq.symm) (by simpa using others other otherMem)

namespace FormField

theorem names_resolvedType (types : List FieldType) (p : Placeholder) :
    FieldType.Names types p (resolvedType types p) := by
  unfold resolvedType
  cases declared : p.type with
  | none => exact FieldType.names_nameOf types (by rw [declared]; rfl)
  | some name =>
      by_cases empty : name = ""
      · simp only [empty, beq_self_eq_true, if_true]
        exact FieldType.names_nameOf types (by rw [declared, empty]; rfl)
      · simp only [beq_iff_eq, empty, if_false]
        exact .declared declared empty

/-- A field shows what a placeholder says about it, under any key. -/
structure Shows (types : List FieldType) (field : FormField) (p : Placeholder) : Prop where
  tag : field.fullTagName = p.fullTagName
  required : field.required = p.required
  order : field.order = p.order
  options : field.options = p.options
  typeId : p.fieldTypeId = .str field.fieldTypeId
  type : FieldType.Names types p field.type

theorem shows_ofPlaceholder (context : CompileContext) (key : String) {p : Placeholder}
    (typed : p.IsTextTyped) : (ofPlaceholder context key p).Shows context.fieldTypes p where
  tag := rfl
  required := rfl
  order := rfl
  options := rfl
  typeId := by
    obtain ⟨id, id_eq⟩ := typed
    simp [ofPlaceholder, id_eq, Json.text?]
  type := names_resolvedType context.fieldTypes p

end FormField

namespace FormStep

/-- The fields of a step that stand alone. -/
def standalone (step : FormStep) : List FormField :=
  step.fields.filterMap fun
    | .standalone field => some field
    | .repeatable _ => none

/-- The groups of a step. -/
def groups (step : FormStep) : List FormGroup :=
  step.fields.filterMap fun
    | .standalone _ => none
    | .repeatable group => some group

theorem standalone_ofStep (context : CompileContext) (step : Step) :
    (ofStep context step).standalone = standaloneFields context step.fields := by
  simp [standalone, ofStep, entries_eq, List.filterMap_map]

theorem groups_ofStep (context : CompileContext) (step : Step) :
    (ofStep context step).groups =
      (groupKeys step.fields).map fun group =>
        (groupNamed context step.fields group).withExamples context := by
  simp [groups, ofStep, entries_eq, List.filterMap_map]

theorem keys_groups_ofStep (context : CompileContext) (step : Step) :
    (ofStep context step).groups.map (·.key) = groupKeys step.fields := by
  rw [groups_ofStep, List.map_map]
  simp [Function.comp_def, groupNamed]

theorem standsAlone_iff_isMember {p : Placeholder} : StandsAlone p ↔ isMember p = false := by
  rw [standsAlone_iff, isMember, bne_eq_false_iff_eq]

theorem inGroup_iff_isMember {p : Placeholder} {group : String} :
    InGroup group p ↔ isMember p = true ∧ groupOf p.fullTagName = group := by
  rw [inGroup_iff, isMember, bne_iff_ne]

theorem keyOf_of_standsAlone {p : Placeholder} (alone : StandsAlone p) :
    keyOf p = p.fullTagName := by
  rw [keyOf, standsAlone_iff_isMember.mp alone, if_neg Bool.false_ne_true]

/-- The key of a member is what its tag has behind the group. -/
theorem isParted_keyOf {p : Placeholder} {group : String} (inGroup : InGroup group p) :
    IsParted p.fullTagName group (keyOf p) := by
  obtain ⟨member, group_eq⟩ := inGroup_iff_isMember.mp inGroup
  rw [keyOf, if_pos member]
  exact isParted_iff.mpr ⟨group_eq, rfl, (inGroup_iff.mp inGroup).1⟩

theorem filter_isMember_eq (fields : List Placeholder) (group : String) :
    ((fields.filter isMember).filter fun p => groupOf p.fullTagName == group) =
      fields.filter fun p => InGroup group p := by
  rw [List.filter_filter]
  apply List.filter_congr
  intro p _
  rw [Bool.eq_iff_iff, decide_eq_true_iff, inGroup_iff_isMember, Bool.and_eq_true, beq_iff_eq,
    and_comm]

/-- The groups of a step are those that one of its tags belongs to. -/
theorem mem_groupKeys_iff {fields : List Placeholder} {group : String} :
    group ∈ groupKeys fields ↔ ∃ p ∈ fields, InGroup group p := by
  simp only [groupKeys, mem_addAllNew, List.not_mem_nil, false_or, List.mem_map, List.mem_filter,
    inGroup_iff_isMember, and_assoc]

/-- A group that comes first among the segments has the first member. -/
theorem findIdx_lt_of_idxOf_lt {fields : List Placeholder} {first second : String}
    (less : ((fields.filter isMember).map fun p => groupOf p.fullTagName).idxOf first <
      ((fields.filter isMember).map fun p => groupOf p.fullTagName).idxOf second) :
    (fields.findIdx fun p => InGroup first p) < fields.findIdx fun p => InGroup second p := by
  induction fields with
  | nil => simp at less
  | cons p rest ih =>
      rw [List.findIdx_cons, List.findIdx_cons]
      by_cases member : isMember p
      · rw [List.filter_cons_of_pos member, List.map_cons, List.idxOf_cons, List.idxOf_cons] at less
        by_cases isSecond : groupOf p.fullTagName = second
        · simp [isSecond] at less
        · by_cases isFirst : groupOf p.fullTagName = first
          · have other : ¬first = second := isFirst ▸ isSecond
            simp [inGroup_iff_isMember, member, isFirst, other]
          · simp only [beq_eq_false_iff_ne.mpr isFirst, beq_eq_false_iff_ne.mpr isSecond,
              cond_false] at less
            simpa [inGroup_iff_isMember, member, isFirst, isSecond] using ih (by omega)
      · rw [List.filter_cons_of_neg member] at less
        simpa [inGroup_iff_isMember, member] using ih less

theorem pairwise_groupKeys (fields : List Placeholder) :
    (groupKeys fields).Pairwise fun first second =>
      (fields.findIdx fun p => InGroup first p) < fields.findIdx fun p => InGroup second p := by
  rw [groupKeys]
  exact (pairwise_idxOf_addAllNew _).imp findIdx_lt_of_idxOf_lt

/-- How a compiled step is made up from a step. -/
structure IsFormOf (types : List FieldType) (compiled : FormStep) (step : Step) : Prop where
  title_eq : step.title = .str compiled.title
  parts : compiled.fields =
    compiled.standalone.map .standalone ++ compiled.groups.map .repeatable
  standalone : List.Forall₂ (fun field p => field.Shows types p ∧ field.key = p.fullTagName)
    compiled.standalone (step.fields.filter fun p => StandsAlone p)
  mem_groups_iff : ∀ key, key ∈ compiled.groups.map (·.key) ↔ ∃ p ∈ step.fields, InGroup key p
  groups_nodup : (compiled.groups.map (·.key)).Nodup
  groups_inOrder : (compiled.groups.map (·.key)).Pairwise fun first second =>
    (step.fields.findIdx fun p => InGroup first p) < step.fields.findIdx fun p => InGroup second p
  members : ∀ group ∈ compiled.groups, List.Forall₂
    (fun field p => field.Shows types p ∧ IsParted field.fullTagName group.key field.key)
    group.fields (step.fields.filter fun p => InGroup group.key p)
  once : ∃ sources, sources.Perm step.fields ∧
    List.Forall₂ (fun field p => field.Shows types p) compiled.members sources

theorem forall₂_standaloneFields (context : CompileContext) {step : Step}
    (texts : step.HoldsTexts) :
    List.Forall₂ (fun field p => field.Shows context.fieldTypes p ∧ field.key = p.fullTagName)
      (standaloneFields context step.fields) (step.fields.filter fun p => StandsAlone p) := by
  have alone_eq : (step.fields.filter fun p => !isMember p) =
      step.fields.filter fun p => StandsAlone p := by
    apply List.filter_congr
    intro p _
    simp [standsAlone_iff_isMember]
  rw [standaloneFields, List.forall₂_map_left_iff, alone_eq, List.forall₂_same]
  intro p pMem
  obtain ⟨pMem, alone⟩ := List.mem_filter.mp pMem
  exact ⟨FormField.shows_ofPlaceholder context _ (texts.typed p pMem),
    keyOf_of_standsAlone (of_decide_eq_true alone)⟩

theorem forall₂_groupFields (context : CompileContext) {step : Step} (texts : step.HoldsTexts)
    (group : String) :
    List.Forall₂ (fun field p =>
        field.Shows context.fieldTypes p ∧ IsParted field.fullTagName group field.key)
      (groupFields context step.fields group) (step.fields.filter fun p => InGroup group p) := by
  rw [groupFields, List.forall₂_map_left_iff, filter_isMember_eq, List.forall₂_same]
  intro p pMem
  obtain ⟨pMem, inGroup⟩ := List.mem_filter.mp pMem
  exact ⟨FormField.shows_ofPlaceholder context _ (texts.typed p pMem),
    isParted_keyOf (of_decide_eq_true inGroup)⟩

theorem isFormOf_ofStep (context : CompileContext) {step : Step} (texts : step.HoldsTexts) :
    (ofStep context step).IsFormOf context.fieldTypes step where
  title_eq := by
    obtain ⟨title, title_eq⟩ := texts.titled
    simp [ofStep, title_eq, Json.text?]
  parts := by
    rw [standalone_ofStep, groups_ofStep, List.map_map]
    exact entries_eq context step.fields
  standalone := by
    rw [standalone_ofStep]
    exact forall₂_standaloneFields context texts
  mem_groups_iff := by
    intro key
    rw [keys_groups_ofStep, mem_groupKeys_iff]
  groups_nodup := by
    rw [keys_groups_ofStep]
    exact nodup_groupKeys step.fields
  groups_inOrder := by
    rw [keys_groups_ofStep]
    exact pairwise_groupKeys step.fields
  members := by
    intro group groupMem
    rw [groups_ofStep] at groupMem
    obtain ⟨key, _, rfl⟩ := List.mem_map.mp groupMem
    rw [FormGroup.key_withExamples, FormGroup.fields_withExamples]
    exact forall₂_groupFields context texts key
  once := by
    refine ⟨compiledOrder step.fields, compiledOrder_perm step.fields, ?_⟩
    rw [members_ofStep, List.forall₂_map_left_iff, List.forall₂_same]
    intro p pMem
    have typed := texts.typed p ((compiledOrder_perm step.fields).mem_iff.mp pMem)
    exact FormField.shows_ofPlaceholder context _ typed

theorem compile_eq_ok_iff {context : CompileContext} {step : Step} {compiled : FormStep} :
    compile context step = .ok compiled ↔ step.HoldsTexts ∧ compiled = ofStep context step := by
  rw [compile, bind_eq_ok, ← check_eq_ok_iff]
  constructor
  · rintro ⟨_, pass, compiled_eq⟩
    cases compiled_eq
    exact ⟨pass, rfl⟩
  · rintro ⟨pass, rfl⟩
    exact ⟨(), pass, rfl⟩

/-- A step compiles exactly when its title and its value types are texts, and then fields and
groups are made up from it in order, every placeholder being compiled once. -/
theorem structure_of_compile (context : CompileContext) (step : Step) :
    ((∃ compiled, compile context step = .ok compiled) ↔ step.HoldsTexts) ∧
      ∀ compiled, compile context step = .ok compiled →
        compiled.IsFormOf context.fieldTypes step := by
  simp only [compile_eq_ok_iff]
  constructor
  · exact ⟨fun ⟨_, texts, _⟩ => texts, fun texts => ⟨_, texts, rfl⟩⟩
  · rintro compiled ⟨texts, rfl⟩
    exact isFormOf_ofStep context texts

/-- A step with members of three groups among each other, one of them without a name, and with
tags that end with a dot or hold several. -/
def scatteredStep : Step :=
  { title := .str "Parties"
    fields := ["Party.Name", "Date.", ".Since", "Party", "Other.Name", "Party.Name.First",
      "Party.Name", ".."].map fun tag => { fullTagName := tag } }

theorem structure_of_scatteredStep :
    ∃ compiled, compile {} scatteredStep = .ok compiled ∧ compiled.IsFormOf [] scatteredStep ∧
      compiled.standalone.map (·.key) = ["Date.", "Party"] ∧
      compiled.groups.map (fun group => (group.key, group.fields.map (·.key))) =
        [("Party", ["Name", "Name.First", "Name"]), ("", ["Since", "."]), ("Other", ["Name"])] := by
  have compiled : compile {} scatteredStep = .ok (ofStep {} scatteredStep) := rfl
  exact ⟨_, compiled, (structure_of_compile {} scatteredStep).2 _ compiled, by decide, by decide⟩

end FormStep

end Stencil
