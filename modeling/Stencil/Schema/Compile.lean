import Stencil.Arrangement.Basic
import Stencil.Placeholder.Wording
import Stencil.Schema.Basic
import Stencil.Schema.Example

/-!
# Compiling steps

A step is compiled in one pass into the fields that stand alone, in order, and into
its groups, in the order in which their first members occur.  A field belongs to a
group when its tag has something after its first dot.  In a preview every field
shows an example value and every group carries two example records.

Titles and value types are what an operator entered.  `check` finds the first
one that is no text; steps that pass are compiled by total functions.
-/

namespace Stencil

/-- What a compilation depends on besides the steps. -/
structure CompileContext where
  preview : Bool := false
  fieldTypes : List FieldType := []
  settings : Settings := {}
  today : Date := ⟨2024, 3, 15⟩
  deriving DecidableEq, Repr, Inhabited

/-- The number of example records of a previewed group. -/
def previewRecordCount : Nat := 2

namespace FormField

/-- The name of a placeholder's value type: the declared one, or else the name that
the catalogue gives to its id. -/
def resolvedType (fieldTypes : List FieldType) (p : Placeholder) : String :=
  match p.type with
  | some declared => if declared == "" then FieldType.nameOf fieldTypes p.fieldTypeId else declared
  | none => FieldType.nameOf fieldTypes p.fieldTypeId

/-- The value that a field shows outside of a preview. -/
def enteredValue (p : Placeholder) : Json :=
  if p.value == .null then .str "" else p.value

/-- The field of a placeholder, under a key. -/
def ofPlaceholder (context : CompileContext) (key : String) (p : Placeholder) : FormField :=
  let type := resolvedType context.fieldTypes p
  { key
    type
    label := Wording.labelOf p.fullTagName
    value :=
      if context.preview then
        Example.value type (p.options.map Json.str) p.fullTagName context.settings context.today
      else enteredValue p
    required := p.required
    order := p.order
    options := p.options
    fieldTypeId := p.fieldTypeId.text?.getD ""
    fullTagName := p.fullTagName }

/-- The example value of a compiled field. -/
def exampleValue (context : CompileContext) (field : FormField) : Json :=
  Example.value field.type (field.options.map Json.str) field.fullTagName context.settings
    context.today

end FormField

namespace FormGroup

/-- The example record of a group. -/
def exampleRecord (context : CompileContext) (fields : List FormField) : FormRecord :=
  Json.distinctFields (fields.map fun field => (field.key, field.exampleValue context))

/-- The group with its example records in a preview. -/
def withExamples (context : CompileContext) (group : FormGroup) : FormGroup :=
  if context.preview && !group.fields.isEmpty then
    { group with
      value := some (List.replicate previewRecordCount (exampleRecord context group.fields)) }
  else group

/-- Adds a field at the end of the group with a name.  A new group stands behind the others. -/
def addMember (groups : List FormGroup) (name : String) (field : FormField) : List FormGroup :=
  match groups with
  | [] => [{ label := name, key := name, fields := [field] }]
  | group :: rest =>
    if group.key == name then { group with fields := group.fields ++ [field] } :: rest
    else group :: addMember rest name field

end FormGroup

namespace FormStep

/-- Tells whether a placeholder is compiled into a group. -/
def isMember (p : Placeholder) : Bool :=
  Placeholder.memberOf p.fullTagName != ""

/-- The key of a placeholder's field: the part of its tag after the first dot in a group, and
the whole tag outside of groups. -/
def keyOf (p : Placeholder) : String :=
  if isMember p then Placeholder.memberOf p.fullTagName else p.fullTagName

/-- What is compiled of a step so far: the fields that stand alone, and the groups by their
names. -/
structure Collected where
  standalone : List FormField := []
  groups : List FormGroup := []
  deriving DecidableEq, Repr, Inhabited

/-- Compiles a placeholder into a field that stands alone or into a member of its group. -/
def Collected.add (context : CompileContext) (collected : Collected) (p : Placeholder) :
    Collected :=
  let field := FormField.ofPlaceholder context (keyOf p) p
  if isMember p then
    { collected with
      groups := FormGroup.addMember collected.groups (Placeholder.groupOf p.fullTagName) field }
  else { collected with standalone := collected.standalone ++ [field] }

/-- Collects the fields and the groups of a step. -/
def collect (context : CompileContext) (fields : List Placeholder) : Collected :=
  fields.foldl (Collected.add context) {}

/-- The entries of a step: the groups follow the fields that stand alone. -/
def entries (context : CompileContext) (fields : List Placeholder) : List FormEntry :=
  let collected := collect context fields
  collected.standalone.map .standalone ++
    collected.groups.map fun group => .repeatable (group.withExamples context)

/-- Compiles a step. -/
def ofStep (context : CompileContext) (step : Step) : FormStep :=
  { title := step.title.text?.getD ""
    fields := entries context step.fields }

/-- The value type of a field must be a text. -/
def checkField (p : Placeholder) : Except Rejection Unit :=
  match p.fieldTypeId with
  | .str _ => .ok ()
  | _ => .error (.faults [⟨["field_type_id"], .notText⟩])

/-- The value types of a step's fields and then its title must be texts. -/
def check (step : Step) : Except Rejection Unit := do
  step.fields.forM checkField
  match step.title with
  | .str _ => return ()
  | _ => throw (.faults [⟨["title"], .notText⟩])

/-- Compiles a step that holds only texts where texts must be. -/
def compile (context : CompileContext) (step : Step) : Except Rejection FormStep := do
  check step
  return ofStep context step

end FormStep

namespace Schema

/-- Compiles the steps of a form. -/
def ofSteps (context : CompileContext) (documentId : String) (steps : List Step) : Schema :=
  { documentId, data := steps.map (FormStep.ofStep context) }

/-- Compiles the steps of a form that hold only texts where texts must be. -/
def compile (context : CompileContext) (documentId : String) (steps : List Step) :
    Except Rejection Schema := do
  steps.forM FormStep.check
  return ofSteps context documentId steps

/-- A generic placeholder as a field to preview: typed from the catalogue or as
text, and without a value. -/
def genericField (fieldTypes : List FieldType) (p : Placeholder) : Placeholder :=
  let name := FieldType.nameOf fieldTypes p.fieldTypeId
  { p with type := some (if name == "" then "Text" else name), value := .str "" }

/-- The steps with generic placeholders added to the first of them.  Without any
step, generic placeholders make up a step of their own. -/
def withGeneric (steps : List Step) (generic : List Placeholder) (fieldTypes : List FieldType) :
    List Step :=
  let fields := generic.map (genericField fieldTypes)
  if fields.isEmpty then steps
  else
    match steps with
    | [] => [{ title := .str (Step.numberedTitle 1), fields }]
    | first :: rest => { first with fields := first.fields ++ fields } :: rest

end Schema

end Stencil
