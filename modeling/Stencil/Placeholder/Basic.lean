import Stencil.Json.Printer
import Stencil.Record
import Stencil.Text.Split

/-!
# Placeholders

A placeholder is a field that a template asks for.  It is known by its tag; a
dotted tag belongs to the group named by the part before its first dot.  A
placeholder is typed when both its category and its value type are known.

An operator may assign any value as a value type, and it is only examined when
a form is compiled, so the id of the value type is a JSON value.  In a placeholder
that was read from a record or a template it is a text.
-/

namespace Stencil

/-- An entry of the value type catalogue. -/
structure FieldType where
  id : String
  name : String := ""
  deriving DecidableEq, Repr, Inhabited

/-- An entry of the category catalogue. -/
structure PlaceholderType where
  id : String
  name : String := ""
  deriving DecidableEq, Repr, Inhabited

/-- A field that a template asks for. -/
structure Placeholder where
  fullTagName : String
  placeholderTypeId : String := ""
  fieldTypeId : Json := .str ""
  name : String := ""
  required : Bool := false
  options : List String := []
  order : Int := 0
  tagName : String := ""
  parentTagName : String := ""
  placeholderText : String := ""
  /-- The name of the value type when it is declared; otherwise the catalogue
  gives it. -/
  type : Option String := none
  /-- The value that an operator has entered. -/
  value : Json := .null
  deriving DecidableEq, Repr, Inhabited

namespace FieldType

/-- Reads an entry of the value type catalogue. -/
def ofFields (fields : Record.Fields) : Except Rejection FieldType :=
  Checked.toExcept <|
    ((Record.requiredText fields "id").both (Record.textOr fields "name" "")).map
      fun (id, name) => ⟨id, name⟩

/-- The name of the first entry with an id, empty when there is none. -/
def nameOf (types : List FieldType) (id : Json) : String :=
  match types.find? fun entry => Json.str entry.id == id with
  | some entry => entry.name
  | none => ""

end FieldType

namespace PlaceholderType

/-- Reads an entry of the category catalogue. -/
def ofFields (fields : Record.Fields) : Except Rejection PlaceholderType :=
  Checked.toExcept <|
    ((Record.requiredText fields "id").both (Record.textOr fields "name" "")).map
      fun (id, name) => ⟨id, name⟩

/-- The name of the first entry with an id, empty when there is none. -/
def nameOf (types : List PlaceholderType) (id : Json) : String :=
  match types.find? fun entry => Json.str entry.id == id with
  | some entry => entry.name
  | none => ""

end PlaceholderType

/-- The mark that parts a tag into a group and a member. -/
def groupMark : Char := '.'

namespace Placeholder

/-- Tells whether both the category and the value type are assigned. -/
def isTyped (p : Placeholder) : Bool :=
  p.placeholderTypeId != "" && p.fieldTypeId.isGiven

/-- Tells whether a tag belongs to a group. -/
def isDotted (tag : String) : Bool :=
  tag.toList.contains groupMark

/-- The part of a tag before its first dot. -/
def groupOf (tag : String) : String :=
  String.ofList (Text.cutAt groupMark tag.toList).1

/-- The part of a tag after its first dot, empty when there is none. -/
def memberOf (tag : String) : String :=
  String.ofList ((Text.cutAt groupMark tag.toList).2.getD [])

/-- The group that a placeholder belongs to. -/
def groupName (p : Placeholder) : Option String :=
  if isDotted p.fullTagName then some (groupOf p.fullTagName) else none

/-- The text of an id: catalogues write null or zero where none is assigned. -/
def idText (value : Json) : String :=
  match value with
  | .null => ""
  | _ => if value.agrees (.int 0) then "" else value.plain

/-- The text of a name; null leaves it empty. -/
def nameText : Json → String
  | .null => ""
  | value => value.plain

/-- The options that a value lists: the texts of a list's items, the characters of
a text, or the field names of an object. -/
def optionTexts : Json → Checked (List String)
  | .null => .sound []
  | .arr items => .sound (items.map Json.plain)
  | .str s => .sound (s.toList.map fun c => String.ofList [c])
  | .obj fields => .sound (fields.map (·.1))
  | _ => .unlistable

/-- A field of a record, or a value in its place when it is left out. -/
def fieldOr (fields : Record.Fields) (name : String) (standard : Json) : Json :=
  (Json.field? fields name).getD standard

/-- Examines the fields of a placeholder record. -/
def check (fields : Record.Fields) : Checked Placeholder :=
  ((Record.requiredText fields "full_tag_name").both <|
    (optionTexts (fieldOr fields "options" .null)).both <|
    (Checked.below "order"
      (Record.wholeNumber ((fieldOr fields "order" (.int 0)).orElse (.int 0)))).both <|
    (Record.textOr fields "tag_name" "").both <|
    (Record.textOr fields "parent_tag_name" "").both <|
    (Record.textOr fields "placeholder_text" "").both <|
    Checked.below "type" (Record.optionalText (fieldOr fields "type" .null))).map
  fun (tag, options, order, tagName, parentTagName, placeholderText, type) =>
    { fullTagName := tag
      placeholderTypeId := idText (fieldOr fields "placeholder_type_id" .null)
      fieldTypeId := .str (idText (fieldOr fields "field_type_id" .null))
      name := nameText (fieldOr fields "name" .null)
      required := (fieldOr fields "required" (.bool false)).isGiven
      options
      order
      tagName
      parentTagName
      placeholderText
      type
      value := fieldOr fields "value" .null }

/-- Examines a placeholder that stands inside another record. -/
def checkItem : Json → Checked Placeholder
  | .obj fields => check fields
  | _ => .fault .notRecord

/-- Reads a placeholder from the fields of a record. -/
def ofFields (fields : Record.Fields) : Except Rejection Placeholder :=
  (check fields).toExcept

end Placeholder

end Stencil
