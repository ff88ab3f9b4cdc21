import Stencil.Placeholder.Basic

/-!
# Form schemas

A form schema is what a client renders: steps with fields and groups.  A field
stands alone in its step or is a member of a repeatable group; a previewed group
carries example records.
-/

namespace Stencil

/-- A field of a form. -/
structure FormField where
  key : String
  type : String
  label : String
  value : Json
  required : Bool
  order : Int
  options : List String
  fieldTypeId : String
  fullTagName : String
  deriving DecidableEq, Repr, Inhabited

/-- One set of values for the members of a group, by key. -/
abbrev FormRecord := List (String × Json)

/-- A group of fields that is entered repeatedly. -/
structure FormGroup where
  label : String
  key : String
  fields : List FormField
  value : Option (List FormRecord) := none
  deriving DecidableEq, Repr, Inhabited

/-- An entry of a step: a field that stands alone, or a group. -/
inductive FormEntry where
  | standalone (field : FormField)
  | repeatable (group : FormGroup)
  deriving DecidableEq, Repr

/-- A step of a form. -/
structure FormStep where
  title : String
  fields : List FormEntry
  deriving DecidableEq, Repr, Inhabited

/-- The form of a document. -/
structure Schema where
  documentId : String
  data : List FormStep
  deriving DecidableEq, Repr, Inhabited

namespace FormEntry

/-- The key by which a client stores what is entered. -/
def key : FormEntry → String
  | standalone field => field.key
  | repeatable group => group.key

/-- The fields of an entry, one for a field that stands alone. -/
def members : FormEntry → List FormField
  | standalone field => [field]
  | repeatable group => group.fields

end FormEntry

/-- The fields of all entries of a step. -/
def FormStep.members (step : FormStep) : List FormField :=
  step.fields.flatMap FormEntry.members

/-- The fields of all steps of a form. -/
def Schema.members (schema : Schema) : List FormField :=
  schema.data.flatMap FormStep.members

end Stencil
