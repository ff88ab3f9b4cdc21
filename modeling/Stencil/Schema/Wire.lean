import Stencil.Schema.Basic
import Stencil.Json.Printer

/-!
# Wire form

The wire form of a schema is the JSON object that a client reads.  A field that
stands alone has nine keys; a group has the type `Repeatable`, a label, a key and
its fields, and a value only when it carries example records.  What is null is not
written.

`ofWire?` reads the wire form back.  It looks keys up by name, in whatever order they
come, and tells a group from a field by its having fields of its own, since a field may
declare any type.
-/

namespace Stencil

namespace Wire

/-- An object of the wire, without the fields that are null. -/
def object (fields : List (String × Json)) : Json :=
  .obj (fields.filter fun (_, value) => value != .null)

/-- The text under a name. -/
def textAt? (fields : List (String × Json)) (name : String) : Option String :=
  (Json.field? fields name).bind Json.text?

/-- The truth value under a name. -/
def flagAt? (fields : List (String × Json)) (name : String) : Option Bool :=
  match Json.field? fields name with
  | some (.bool flag) => some flag
  | _ => none

/-- The whole number under a name. -/
def wholeAt? (fields : List (String × Json)) (name : String) : Option Int :=
  match Json.field? fields name with
  | some (.int number) => some number
  | _ => none

/-- The items of the list under a name. -/
def itemsAt? (fields : List (String × Json)) (name : String) : Option (List Json) :=
  match Json.field? fields name with
  | some (.arr items) => some items
  | _ => none

end Wire

namespace FormField

/-- The wire form of a field. -/
def toWire (field : FormField) : Json :=
  Wire.object [("key", .str field.key), ("type", .str field.type), ("label", .str field.label),
    ("value", field.value), ("required", .bool field.required), ("order", .int field.order),
    ("options", .arr (field.options.map .str)), ("field_type_id", .str field.fieldTypeId),
    ("full_tag_name", .str field.fullTagName)]

/-- Reads the wire form of a field. -/
def ofWire? : Json → Option FormField
  | .obj fields => do
    let key ← Wire.textAt? fields "key"
    let type ← Wire.textAt? fields "type"
    let label ← Wire.textAt? fields "label"
    let value := (Json.field? fields "value").getD .null
    let required ← Wire.flagAt? fields "required"
    let order ← Wire.wholeAt? fields "order"
    let options ← (← Wire.itemsAt? fields "options").mapM Json.text?
    let fieldTypeId ← Wire.textAt? fields "field_type_id"
    let fullTagName ← Wire.textAt? fields "full_tag_name"
    return { key, type, label, value, required, order, options, fieldTypeId, fullTagName }
  | _ => none

end FormField

namespace FormGroup

/-- The type name of a group on the wire. -/
def repeatableType : String := "Repeatable"

/-- The example records of a group, null when it has none. -/
def wireValue (group : FormGroup) : Json :=
  match group.value with
  | some records => .arr (records.map .obj)
  | none => .null

/-- The wire form of a group. -/
def toWire (group : FormGroup) : Json :=
  Wire.object [("type", .str repeatableType), ("label", .str group.label), ("key", .str group.key),
    ("fields", .arr (group.fields.map FormField.toWire)), ("value", group.wireValue)]

/-- Reads a record. -/
def recordOf? : Json → Option FormRecord
  | .obj fields => some fields
  | _ => none

/-- Reads the example records of a group, if there are any. -/
def recordsOf? : Option Json → Option (Option (List FormRecord))
  | none => some none
  | some (.arr items) => (items.mapM recordOf?).map some
  | some _ => none

/-- Reads the wire form of a group. -/
def ofWire? : Json → Option FormGroup
  | .obj fields => do
    let type ← Wire.textAt? fields "type"
    let label ← Wire.textAt? fields "label"
    let key ← Wire.textAt? fields "key"
    let members ← (← Wire.itemsAt? fields "fields").mapM FormField.ofWire?
    let value ← recordsOf? (Json.field? fields "value")
    if type == repeatableType then some { label, key, fields := members, value } else none
  | _ => none

end FormGroup

namespace FormEntry

/-- The wire form of an entry. -/
def toWire : FormEntry → Json
  | standalone field => field.toWire
  | repeatable group => group.toWire

/-- Reads the wire form of an entry; a group has fields of its own. -/
def ofWire? : Json → Option FormEntry
  | .obj fields =>
    if (Json.field? fields "fields").isSome then (FormGroup.ofWire? (.obj fields)).map .repeatable
    else (FormField.ofWire? (.obj fields)).map .standalone
  | _ => none

end FormEntry

namespace FormStep

/-- The wire form of a step. -/
def toWire (step : FormStep) : Json :=
  Wire.object [("title", .str step.title), ("fields", .arr (step.fields.map FormEntry.toWire))]

/-- Reads the wire form of a step. -/
def ofWire? : Json → Option FormStep
  | .obj fields => do
    let title ← Wire.textAt? fields "title"
    let entries ← (← Wire.itemsAt? fields "fields").mapM FormEntry.ofWire?
    return { title, fields := entries }
  | _ => none

end FormStep

namespace Schema

/-- The wire form of a schema. -/
def toWire (schema : Schema) : Json :=
  Wire.object
    [("documentId", .str schema.documentId), ("data", .arr (schema.data.map FormStep.toWire))]

/-- Reads the wire form of a schema. -/
def ofWire? : Json → Option Schema
  | .obj fields => do
    let documentId ← Wire.textAt? fields "documentId"
    let data ← (← Wire.itemsAt? fields "data").mapM FormStep.ofWire?
    return { documentId, data }
  | _ => none

/-- The text of a schema file. -/
def text (schema : Schema) : String :=
  schema.toWire.pretty

end Schema

end Stencil
