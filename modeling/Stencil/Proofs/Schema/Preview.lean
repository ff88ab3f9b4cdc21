import Stencil.Proofs.Json.Fields
import Stencil.Proofs.Schema.Structure
import Stencil.Schema.FillValues

/-!
# Previews

A preview differs from a form in values only.  The example value of a member of a group stands
in the member and, under its key, in both records of the group.  Where tags are distinct so are
the keys of a group, so what a template is filled with is the value of every field, with or
without a preview, and no matter whether it is read from a field or from a record.
-/

namespace Stencil

open Placeholder

namespace FormField

/-- The field without its value. -/
def erased (field : FormField) : FormField :=
  { field with value := .null }

/-- The value of a previewed field is its example value. -/
theorem exampleValue_ofPlaceholder {context : CompileContext} (previewed : context.preview = true)
    (key : String) (p : Placeholder) :
    (ofPlaceholder context key p).exampleValue context = (ofPlaceholder context key p).value := by
  simp only [ofPlaceholder, exampleValue, previewed, if_true]

end FormField

namespace FormGroup

/-- The group without the values of its fields and its records. -/
def erased (group : FormGroup) : FormGroup :=
  { group with fields := group.fields.map FormField.erased, value := none }

theorem erased_withExamples (context : CompileContext) (group : FormGroup) :
    (group.withExamples context).erased = group.erased := by
  unfold withExamples
  split <;> rfl

/-- A group carries two equal records with the keys of its fields, each with the value of the
field. -/
def ShowsExamples (group : FormGroup) : Prop :=
  ∃ record : FormRecord, group.value = some [record, record] ∧
    record.map (·.1) = group.fields.map (·.key) ∧ (record.map (·.1)).Nodup ∧
    ∀ field ∈ group.fields, Json.field? record field.key = some field.value

theorem fillText_of_showsExamples {group : FormGroup} (examples : group.ShowsExamples)
    {field : FormField} (fieldMem : field ∈ group.fields) :
    group.fillText field = field.value.fillText := by
  obtain ⟨record, value_eq, _, _, shown⟩ := examples
  rw [fillText, value_eq, Option.getD_some, List.headD_cons, shown field fieldMem,
    Option.getD_some]

theorem fillText_of_value_eq_none {group : FormGroup} (noRecords : group.value = none)
    (field : FormField) : group.fillText field = field.value.fillText := by
  rw [fillText, noRecords]
  rfl

end FormGroup

namespace FormEntry

/-- The entry without values. -/
def erased : FormEntry → FormEntry
  | standalone field => .standalone field.erased
  | repeatable group => .repeatable group.erased

end FormEntry

namespace FormStep

/-- The step without values. -/
def erased (step : FormStep) : FormStep :=
  { step with fields := step.fields.map FormEntry.erased }

theorem erased_groupNamed (context : CompileContext) (preview : Bool)
    (fields : List Placeholder) (group : String) :
    (groupNamed { context with preview } fields group).erased =
      (groupNamed context fields group).erased := by
  simp only [FormGroup.erased, groupNamed, groupFields, List.map_map]
  rfl

theorem erased_ofStep (context : CompileContext) (preview : Bool) (step : Step) :
    (ofStep { context with preview } step).erased = (ofStep context step).erased := by
  simp only [erased, ofStep, entries_eq, standaloneFields, List.map_append, List.map_map]
  congr 2
  apply List.map_congr_left
  intro group _
  simp only [Function.comp_apply, FormEntry.erased, FormGroup.erased_withExamples]
  rw [erased_groupNamed]

/-- The keys of a group tell its members apart. -/
theorem nodup_keys_groupFields (context : CompileContext) {fields : List Placeholder}
    (nodup : (tagsOf fields).Nodup) (group : String) :
    ((groupFields context fields group).map (·.key)).Nodup := by
  have keys_eq : ((groupFields context fields group).map (·.key)).map (group ++ "." ++ ·) =
      (groupFields context fields group).map (·.fullTagName) := by
    rw [List.map_map]
    apply List.map_congr_left
    intro field fieldMem
    obtain ⟨p, pMem, rfl⟩ := List.mem_map.mp fieldMem
    rw [filter_isMember_eq] at pMem
    exact (isParted_keyOf (of_decide_eq_true (List.mem_filter.mp pMem).2)).tag_eq.symm
  apply List.Nodup.of_map (group ++ "." ++ ·)
  rw [keys_eq, tags_groupFields]
  exact nodup.sublist ((List.filter_sublist.trans List.filter_sublist).map _)

theorem showsExamples_withExamples {context : CompileContext} (previewed : context.preview = true)
    {fields : List Placeholder} (nodup : (tagsOf fields).Nodup) {group : String}
    (groupMem : group ∈ groupKeys fields) :
    ((groupNamed context fields group).withExamples context).ShowsExamples := by
  let members := groupFields context fields group
  let record : FormRecord := members.map fun field => (field.key, field.exampleValue context)
  have keys_eq : record.map (·.1) = members.map (·.key) := by
    rw [List.map_map]
    rfl
  have keys_nodup : (record.map (·.1)).Nodup :=
    keys_eq ▸ nodup_keys_groupFields context nodup group
  -- no key repeats, so every member keeps its entry
  have record_eq : FormGroup.exampleRecord context members = record :=
    Json.distinctFields_eq_self keys_nodup
  have value_eq : ((groupNamed context fields group).withExamples context).value =
      some [record, record] := by
    rw [value_withExamples groupMem, if_pos previewed, record_eq]
    rfl
  refine ⟨record, value_eq, ?_, keys_nodup, ?_⟩
  · rw [FormGroup.fields_withExamples]
    exact keys_eq
  · rw [FormGroup.fields_withExamples]
    intro field fieldMem
    obtain ⟨p, _, rfl⟩ := List.mem_map.mp fieldMem
    apply Json.field?_of_mem keys_nodup
    rw [← FormField.exampleValue_ofPlaceholder previewed]
    exact List.mem_map_of_mem fieldMem

/-- The groups of a compiled step carry example records in a preview and nothing outside of
it. -/
theorem values_of_mem_groups {context : CompileContext} {step : Step}
    (nodup : (tagsOf step.fields).Nodup) {group : FormGroup}
    (groupMem : group ∈ (ofStep context step).groups) :
    if context.preview then group.ShowsExamples else group.value = none := by
  rw [groups_ofStep] at groupMem
  obtain ⟨key, keyMem, rfl⟩ := List.mem_map.mp groupMem
  split
  · next previewed => exact showsExamples_withExamples previewed nodup keyMem
  · next plain => rw [value_withExamples keyMem, if_neg plain]

/-- A template is filled with the values of the fields of a step. -/
theorem fillValues_ofStep (context : CompileContext) {step : Step}
    (nodup : (tagsOf step.fields).Nodup) :
    (ofStep context step).fields.flatMap FormEntry.fillValues =
      (ofStep context step).members.map fun field => (field.fullTagName, field.value.fillText) := by
  rw [members, List.map_flatMap]
  apply List.flatMap_congr
  intro entry entryMem
  cases entry with
  | standalone field => rfl
  | repeatable group =>
      have groupMem : group ∈ (ofStep context step).groups :=
        List.mem_filterMap.mpr ⟨_, entryMem, rfl⟩
      have values := values_of_mem_groups nodup groupMem
      apply List.map_congr_left
      intro field fieldMem
      split at values
      · rw [FormGroup.fillText_of_showsExamples values fieldMem]
      · rw [FormGroup.fillText_of_value_eq_none values]

end FormStep

theorem putText_eq_append {values : List (String × String)} {tag : String} (text : String)
    (new : tag ∉ values.map (·.1)) : putText values tag text = values ++ [(tag, text)] := by
  induction values with
  | nil => rfl
  | cons value rest ih =>
      rcases value with ⟨key, old⟩
      simp only [List.map_cons, List.mem_cons, not_or] at new
      simp [putText, Ne.symm new.1, ih new.2]

namespace Schema

/-- The form without values. -/
def erased (schema : Schema) : Schema :=
  { schema with data := schema.data.map FormStep.erased }

theorem erased_ofSteps (context : CompileContext) (preview : Bool) (documentId : String)
    (steps : List Step) :
    (ofSteps { context with preview } documentId steps).erased =
      (ofSteps context documentId steps).erased := by
  simp only [erased, ofSteps, List.map_map]
  congr 1
  exact List.map_congr_left fun step _ => FormStep.erased_ofStep context preview step

theorem nodup_of_mem_steps {steps : List Step} (nodup : (tagsOfSteps steps).Nodup) {step : Step}
    (stepMem : step ∈ steps) : (tagsOf step.fields).Nodup :=
  (List.nodup_flatMap.mp nodup).1 step stepMem

/-- A template is filled with the values of all fields, each under its tag. -/
theorem fillValues_ofSteps (context : CompileContext) (documentId : String) {steps : List Step}
    (nodup : (tagsOfSteps steps).Nodup) :
    (ofSteps context documentId steps).fillValues =
      (ofSteps context documentId steps).members.map fun field =>
        (field.fullTagName, field.value.fillText) := by
  let schema := ofSteps context documentId steps
  let texts := schema.members.map fun field => (field.fullTagName, field.value.fillText)
  have values_eq : (schema.data.flatMap (·.fields)).flatMap FormEntry.fillValues = texts := by
    simp only [schema, texts, members, ofSteps, List.flatMap_map, List.map_flatMap,
      List.flatMap_assoc]
    apply List.flatMap_congr
    intro step stepMem
    exact FormStep.fillValues_ofStep context (nodup_of_mem_steps nodup stepMem)
  have tags_eq : texts.map (·.1) = schema.tags := by
    rw [List.map_map]
    rfl
  have tags_nodup : (texts.map (·.1)).Nodup :=
    tags_eq ▸ (tags_ofSteps_perm context documentId steps).nodup_iff.mpr nodup
  rw [fillValues, values_eq]
  exact foldl_put_eq_append (fun _ entry new => putText_eq_append entry.2 new) tags_nodup

/-- A template is filled with a text for every tag of the steps, that of the value of its
field. -/
structure FillsIn (schema : Schema) (steps : List Step) : Prop where
  nodup : (schema.fillValues.map (·.1)).Nodup
  tags : (schema.fillValues.map (·.1)).Perm (tagsOfSteps steps)
  texts : ∀ field ∈ schema.members,
    schema.fillValues.lookup field.fullTagName = some field.value.fillText

theorem fillsIn_ofSteps (context : CompileContext) (documentId : String) {steps : List Step}
    (nodup : (tagsOfSteps steps).Nodup) : (ofSteps context documentId steps).FillsIn steps := by
  have values_eq := fillValues_ofSteps context documentId nodup
  have tags_perm : ((ofSteps context documentId steps).fillValues.map (·.1)).Perm
      (tagsOfSteps steps) := by
    rw [values_eq, List.map_map]
    exact tags_ofSteps_perm context documentId steps
  have tags_nodup := tags_perm.nodup_iff.mpr nodup
  refine ⟨tags_nodup, tags_perm, fun field fieldMem => ?_⟩
  rw [lookup_eq_some_iff_mem tags_nodup, values_eq]
  exact List.mem_map_of_mem fieldMem

/-- A preview fails or succeeds as the form does and differs from it in values only.  In it every
group carries two records with the values of its members, and a template is filled with the values
of all fields, with or without a preview. -/
theorem preview_of_compile (context : CompileContext) (documentId : String) {steps : List Step}
    (nodup : (tagsOfSteps steps).Nodup) :
    (compile { context with preview := true } documentId steps).map erased =
        (compile { context with preview := false } documentId steps).map erased ∧
      ((∃ schema, compile context documentId steps = .ok schema) ↔
        ∀ step ∈ steps, step.HoldsTexts) ∧
      ∀ preview schema, compile { context with preview } documentId steps = .ok schema →
        (∀ step ∈ schema.data, ∀ group ∈ step.groups,
          if preview then group.ShowsExamples else group.value = none) ∧
        schema.FillsIn steps := by
  refine ⟨?_, compile_eq_ok_iff, ?_⟩
  · simp only [compile]
    cases steps.forM FormStep.check with
    | error rejection => rfl
    | ok _ =>
        have erased_eq := erased_ofSteps { context with preview := false } true documentId steps
        exact congrArg Except.ok erased_eq
  · intro preview schema compiled
    obtain rfl := compile_eq_ok compiled
    refine ⟨?_, fillsIn_ofSteps _ documentId nodup⟩
    intro step stepMem group groupMem
    obtain ⟨origin, originMem, rfl⟩ := List.mem_map.mp stepMem
    exact FormStep.values_of_mem_groups (nodup_of_mem_steps nodup originMem) groupMem

/-- Two steps with members of one group, with options, a catalogued and a declared value type, and
a value. -/
def clientSteps : List Step :=
  [{ title := .str "Client"
     fields := [
       { fullTagName := "Client.Name", options := ["Ada", "Bob"], value := .str "Eve" },
       { fullTagName := "Day", type := some "Date" },
       { fullTagName := "Client.Age", fieldTypeId := .str "n" }] },
    { title := .str "More"
      fields := [{ fullTagName := "Client.Note", value := .int 7 }] }]

theorem preview_of_clientSteps :
    let context : CompileContext := { fieldTypes := [⟨"n", "Number"⟩] }
    (tagsOfSteps clientSteps).Nodup ∧ ∃ previewed plain,
      compile { context with preview := true } "d" clientSteps = .ok previewed ∧
      compile { context with preview := false } "d" clientSteps = .ok plain ∧
      previewed.erased = plain.erased ∧
      (∀ step ∈ previewed.data, ∀ group ∈ step.groups, group.ShowsExamples) ∧
      (∀ step ∈ plain.data, ∀ group ∈ step.groups, group.value = none) ∧
      previewed.FillsIn clientSteps ∧ plain.FillsIn clientSteps ∧
      previewed.fillValues = [("Day", "2024-03-15"), ("Client.Name", "Ada"), ("Client.Age", "123"),
        ("Client.Note", "Example Text")] ∧
      plain.fillValues = [("Day", ""), ("Client.Name", "Eve"), ("Client.Age", ""),
        ("Client.Note", "7")] := by
  intro context
  have nodup : (tagsOfSteps clientSteps).Nodup := by decide
  have previewed : compile { context with preview := true } "d" clientSteps =
      .ok (ofSteps { context with preview := true } "d" clientSteps) := rfl
  have plain : compile { context with preview := false } "d" clientSteps =
      .ok (ofSteps { context with preview := false } "d" clientSteps) := rfl
  obtain ⟨erased_eq, _, compiled⟩ := preview_of_compile context "d" nodup
  rw [previewed, plain] at erased_eq
  obtain ⟨examples, previewFills⟩ := compiled true _ previewed
  obtain ⟨noRecords, plainFills⟩ := compiled false _ plain
  exact ⟨nodup, _, _, previewed, plain, Except.ok.inj erased_eq, examples, noRecords, previewFills,
    plainFills, by decide +kernel, by decide +kernel⟩

end Schema

end Stencil
