import Stencil.Proofs.Schema.Tags
import Stencil.Schema.Wire

/-!
# What the wire form keeps

The wire form leaves out what is null and does not say whether an entry is a field or a
group.  Neither loses anything: what is missing is read back as null, and only a group has
fields of its own.  A compiled form has a value in every field, and in every group exactly
in a preview, so the objects on its wire have fixed keys.
-/

namespace Stencil

/-- The keys of an object. -/
def Json.keys : Json → List String
  | .obj fields => fields.map (·.1)
  | _ => []

namespace Wire

/-- What is read back item by item is read back as a list. -/
theorem mapM_map_eq_some {α : Type} (write : α → Json) {read : Json → Option α}
    (read_write : ∀ a, read (write a) = some a) (items : List α) :
    (items.map write).mapM read = some items := by
  induction items with
  | nil => rfl
  | cons a rest ih =>
      rw [List.map_cons, List.mapM_cons, read_write, ih]
      rfl

end Wire

namespace FormField

@[simp]
theorem ofWire?_toWire (field : FormField) : ofWire? field.toWire = some field := by
  rcases field with ⟨key, type, label, value, required, order, options, fieldTypeId, fullTagName⟩
  have options_eq : (options.map Json.str).mapM Json.text? = some options :=
    Wire.mapM_map_eq_some Json.str (fun _ => rfl) options
  by_cases unset : value = .null
  · subst unset
    simp [toWire, Wire.object, ofWire?, Wire.textAt?, Wire.flagAt?, Wire.wholeAt?, Wire.itemsAt?,
      Json.field?, List.lookup_cons, List.lookup_nil, Json.text?, options_eq]
  · simp [toWire, Wire.object, ofWire?, Wire.textAt?, Wire.flagAt?, Wire.wholeAt?, Wire.itemsAt?,
      Json.field?, List.lookup_cons, Json.text?, unset, options_eq]

/-- The keys of a field on the wire. -/
def wireKeys : List String :=
  ["key", "type", "label", "value", "required", "order", "options", "field_type_id",
    "full_tag_name"]

/-- A field that holds a value has all keys. -/
theorem keys_toWire {field : FormField} (given : field.value ≠ .null) :
    field.toWire.keys = wireKeys := by
  simp [toWire, Wire.object, Json.keys, wireKeys, given]

/-- A field has no fields of its own. -/
theorem exists_toWire_eq_obj (field : FormField) :
    ∃ fields, field.toWire = .obj fields ∧ Json.field? fields "fields" = none := by
  refine ⟨_, rfl, List.lookup_eq_none_iff.mpr ?_⟩
  rintro ⟨key, value⟩ kept
  have keyMem : key ∈ wireKeys := List.mem_map_of_mem (f := Prod.fst) (List.mem_of_mem_filter kept)
  rw [bne_iff_ne]
  rintro rfl
  exact absurd keyMem (by decide)

/-- An example value is never null: options are texts. -/
theorem exampleValue_ne_null (type : String) (options : List String) (tag : String)
    (settings : Settings) (today : Date) :
    Example.value type (options.map Json.str) tag settings today ≠ .null := by
  unfold Example.value
  split
  · exact Json.noConfusion
  · split
    · exact Json.noConfusion
    · split
      · exact Json.noConfusion
      · cases options with
        | nil => exact Json.noConfusion
        | cons first rest => exact Json.noConfusion

/-- An unset value is compiled as an empty text. -/
theorem enteredValue_ne_null (p : Placeholder) : enteredValue p ≠ .null := by
  unfold enteredValue
  split
  · exact Json.noConfusion
  · next set => simpa using set

/-- A compiled field holds a value, in a preview and outside of it. -/
theorem ofPlaceholder_value_ne_null (context : CompileContext) (key : String) (p : Placeholder) :
    (ofPlaceholder context key p).value ≠ .null := by
  simp only [ofPlaceholder]
  split
  · exact exampleValue_ne_null _ p.options _ _ _
  · exact enteredValue_ne_null p

end FormField

namespace FormGroup

@[simp]
theorem ofWire?_toWire (group : FormGroup) : ofWire? group.toWire = some group := by
  rcases group with ⟨label, key, fields, value⟩
  have fields_eq : (fields.map FormField.toWire).mapM FormField.ofWire? = some fields :=
    Wire.mapM_map_eq_some FormField.toWire FormField.ofWire?_toWire fields
  cases value with
  | none =>
      simp [toWire, wireValue, Wire.object, ofWire?, Wire.textAt?, Wire.itemsAt?, Json.field?,
        List.lookup_cons, List.lookup_nil, Json.text?, fields_eq, recordsOf?]
  | some records =>
      have records_eq : (records.map Json.obj).mapM recordOf? = some records :=
        Wire.mapM_map_eq_some Json.obj (fun _ => rfl) records
      simp [toWire, wireValue, Wire.object, ofWire?, Wire.textAt?, Wire.itemsAt?, Json.field?,
        List.lookup_cons, Json.text?, fields_eq, recordsOf?, records_eq]

/-- The keys of a group on the wire. -/
def wireKeys (hasRecords : Bool) : List String :=
  ["type", "label", "key", "fields"] ++ if hasRecords then ["value"] else []

theorem keys_toWire (group : FormGroup) : group.toWire.keys = wireKeys group.value.isSome := by
  rcases group with ⟨label, key, fields, _ | records⟩
  · rfl
  · rfl

/-- A group has fields of its own. -/
theorem exists_toWire_eq_obj (group : FormGroup) :
    ∃ fields, group.toWire = .obj fields ∧ (Json.field? fields "fields").isSome := by
  exact ⟨_, rfl, rfl⟩

end FormGroup

namespace FormEntry

/-- An entry is read back as what it is, whatever type a field declares. -/
@[simp]
theorem ofWire?_toWire (entry : FormEntry) : ofWire? entry.toWire = some entry := by
  cases entry with
  | standalone field =>
      obtain ⟨fields, wire_eq, noFields⟩ := field.exists_toWire_eq_obj
      have read := field.ofWire?_toWire
      rw [wire_eq] at read
      rw [toWire, wire_eq, ofWire?, noFields, read]
      rfl
  | repeatable group =>
      obtain ⟨fields, wire_eq, hasFields⟩ := group.exists_toWire_eq_obj
      have read := group.ofWire?_toWire
      rw [wire_eq] at read
      rw [toWire, wire_eq, ofWire?, if_pos hasFields, read]
      rfl

/-- The objects of an entry on the wire have the keys of their kinds; a group has a value
exactly in a preview. -/
def HasWireKeys (preview : Bool) : FormEntry → Prop
  | standalone field => field.toWire.keys = FormField.wireKeys
  | repeatable group =>
    group.toWire.keys = FormGroup.wireKeys preview ∧
      ∀ member ∈ group.fields, member.toWire.keys = FormField.wireKeys

end FormEntry

namespace FormStep

@[simp]
theorem ofWire?_toWire (step : FormStep) : ofWire? step.toWire = some step := by
  have fields_eq : (step.fields.map FormEntry.toWire).mapM FormEntry.ofWire? = some step.fields :=
    Wire.mapM_map_eq_some FormEntry.toWire FormEntry.ofWire?_toWire step.fields
  simp [toWire, Wire.object, ofWire?, Wire.textAt?, Wire.itemsAt?, Json.field?, List.lookup_cons,
    Json.text?, fields_eq]

theorem hasWireKeys_of_mem_entries {context : CompileContext} {fields : List Placeholder}
    {entry : FormEntry} (entryMem : entry ∈ entries context fields) :
    entry.HasWireKeys context.preview := by
  rw [entries_eq] at entryMem
  rcases List.mem_append.mp entryMem with standalone | group
  · rcases List.mem_map.mp standalone with ⟨field, fieldMem, rfl⟩
    rcases List.mem_map.mp fieldMem with ⟨p, _, rfl⟩
    exact FormField.keys_toWire (FormField.ofPlaceholder_value_ne_null _ _ p)
  · rcases List.mem_map.mp group with ⟨name, nameMem, rfl⟩
    constructor
    · rw [FormGroup.keys_toWire, value_withExamples nameMem]
      cases context.preview <;> rfl
    · intro member memberMem
      rw [FormGroup.fields_withExamples] at memberMem
      rcases List.mem_map.mp memberMem with ⟨p, _, rfl⟩
      exact FormField.keys_toWire (FormField.ofPlaceholder_value_ne_null _ _ p)

end FormStep

namespace Schema

@[simp]
theorem ofWire?_toWire (schema : Schema) : ofWire? schema.toWire = some schema := by
  have data_eq : (schema.data.map FormStep.toWire).mapM FormStep.ofWire? = some schema.data :=
    Wire.mapM_map_eq_some FormStep.toWire FormStep.ofWire?_toWire schema.data
  simp [toWire, Wire.object, ofWire?, Wire.textAt?, Wire.itemsAt?, Json.field?, List.lookup_cons,
    Json.text?, data_eq]

/-- Different schemas have different wire forms. -/
theorem toWire_injective : Function.Injective toWire := by
  intro schema other same
  have read : some schema = some other := by
    rw [← ofWire?_toWire schema, same, ofWire?_toWire]
  exact Option.some.inj read

/-- The wire form of a compiled form has fixed keys, a group having a value exactly in a
preview, and it is read back as the form, which no other form shares it with. -/
theorem wire_of_compile {context : CompileContext} {documentId : String} {steps : List Step}
    {schema : Schema} (compiled : compile context documentId steps = .ok schema) :
    (∀ step ∈ schema.data, ∀ entry ∈ step.fields, entry.HasWireKeys context.preview) ∧
      ofWire? schema.toWire = some schema ∧
      ∀ other : Schema, other.toWire = schema.toWire → other = schema := by
  refine ⟨?_, ofWire?_toWire schema, fun other same => toWire_injective same⟩
  obtain rfl := compile_eq_ok compiled
  intro step stepMem entry entryMem
  rcases List.mem_map.mp stepMem with ⟨origin, _, rfl⟩
  exact FormStep.hasWireKeys_of_mem_entries entryMem

/-- A step with an unset field that declares the type of a group beside a group. -/
def lookalikeStep : Step :=
  { title := .str "Parties"
    fields := [
      { fullTagName := "Party", type := some "Repeatable" },
      { fullTagName := "Party.Name", options := ["Ada"] },
      { fullTagName := "Party.Since", type := some "Date", value := .obj [("day", .null)] }] }

theorem wire_of_lookalikeStep :
    ∃ schema, compile { preview := true } "d" [lookalikeStep] = .ok schema ∧
      (∀ step ∈ schema.data, ∀ entry ∈ step.fields, entry.HasWireKeys true) ∧
      ofWire? schema.toWire = some schema ∧
      ∀ other : Schema, other.toWire = schema.toWire → other = schema := by
  have compiled : compile { preview := true } "d" [lookalikeStep] =
      .ok (ofSteps { preview := true } "d" [lookalikeStep]) := rfl
  exact ⟨_, compiled, wire_of_compile compiled⟩

end Schema

end Stencil
