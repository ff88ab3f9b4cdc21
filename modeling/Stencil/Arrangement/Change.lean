import Stencil.Arrangement.Basic
import Stencil.Text.Escape

/-!
# Changes of an arrangement

Selecting tags, groups and steps; moving the selected placeholders into a new
step and back; reordering the fields of a step; and editing titles, value types
and options.  Every change is a function on arrangements.  A change that names a
step or a field that is not there leaves the arrangement as it was.
-/

namespace Stencil.Arrangement

/-- Adds tags to a selection. -/
def selectTags (selected tags : List String) : List String :=
  tags.foldl (fun seen tag => if seen.contains tag then seen else seen ++ [tag]) selected

/-- Takes tags out of a selection. -/
def deselectTags (selected tags : List String) : List String :=
  selected.filter fun tag => !tags.contains tag

/-- Adds tags to the selection or takes them out of it. -/
def setSelected (a : Arrangement) (tags : List String) (shouldSelect : Bool) : Arrangement :=
  { a with
    selected := if shouldSelect then selectTags a.selected tags else deselectTags a.selected tags }

/-- Flips the selection of one tag, or of the whole group it names or belongs to.
A group ends up in one state: the opposite of the tag's own when the tag is a
member, and otherwise the opposite of all members being selected. -/
def toggleSelect (a : Arrangement) (tag : String) (asGroup : Bool) : Arrangement :=
  let group := Placeholder.groupOf tag
  let members := if asGroup then a.memberTags group else []
  if members.isEmpty then a.setSelected [tag] (!a.isSelected tag)
  else if members.contains tag then a.setSelected members (!a.isSelected tag)
  else a.setSelected members (!a.isGroupSelected group)

/-- Selects all members of a group, or none of them when all were selected. -/
def toggleGroup (a : Arrangement) (group : String) : Arrangement :=
  let members := a.memberTags group
  if members.isEmpty then a else a.setSelected members (!members.all a.isSelected)

/-- Selects all fields of a step, or none of them when all were selected. -/
def toggleStep (a : Arrangement) (index : Nat) : Arrangement :=
  match a.steps[index]? with
  | some step => a.setSelected step.tags (!step.tags.all a.isSelected)
  | none => a

/-- Numbers placeholders from a first number on. -/
def numberedFrom : (first : Nat) → List Placeholder → List Placeholder
  | _, [] => []
  | first, p :: rest => { p with order := first } :: numberedFrom (first + 1) rest

/-- Numbers placeholders by their positions. -/
def numbered (fields : List Placeholder) : List Placeholder :=
  numberedFrom 0 fields

/-- Moves the selected placeholders of the pool into a new step, numbered in pool
order, and clears the selection.  It is a group step when any tag is dotted. -/
def moveRight (a : Arrangement) : Arrangement :=
  let moving := a.selectedPool
  if moving.isEmpty then a
  else
    { a with
      pool := a.pool.filter fun p => !a.isSelected p.fullTagName
      steps := a.steps ++ [{
        title := .str (Step.numberedTitle (a.steps.length + 1))
        fields := numbered moving
        isGroup := moving.any fun p => Placeholder.isDotted p.fullTagName }]
      selected := [] }

/-- Moves the selected fields of all steps to the end of the pool, drops the steps
left without fields, and clears the selection. -/
def moveLeft (a : Arrangement) : Arrangement :=
  if a.selected.isEmpty then a
  else
    let returned := a.steps.flatMap fun step =>
      step.fields.filter fun p => a.isSelected p.fullTagName
    let kept := a.steps.map fun step =>
      { step with fields := step.fields.filter fun p => !a.isSelected p.fullTagName }
    { a with
      pool := a.pool ++ returned
      steps := kept.filter fun step => !step.fields.isEmpty
      selected := [] }

/-- Changes the step at an index. -/
def modifyStep (a : Arrangement) (index : Nat) (change : Step → Step) : Arrangement :=
  { a with steps := a.steps.modify index change }

/-- A list in which the element at one position has moved to another. -/
def moved {α : Type} (items : List α) (source target : Nat) : List α :=
  match items[source]? with
  | some item => (items.eraseIdx source).insertIdx target item
  | none => items

/-- Moves one field of a step to another position and numbers the fields anew. -/
def reorder (a : Arrangement) (index source target : Nat) : Arrangement :=
  match a.steps[index]? with
  | some step =>
    if source < step.fields.length && target < step.fields.length then
      a.modifyStep index fun step =>
        { step with fields := numbered (moved step.fields source target) }
    else a
  | none => a

/-- Gives a step a title. -/
def setTitle (a : Arrangement) (index : Nat) (title : Json) : Arrangement :=
  a.modifyStep index fun step => { step with title }

/-- Changes the first field with a tag. -/
def modifyField (a : Arrangement) (tag : Json) (change : Placeholder → Placeholder) :
    Arrangement :=
  match a.findField tag with
  | some (index, position) =>
    a.modifyStep index fun step => { step with fields := step.fields.modify position change }
  | none => a

/-- Assigns a value type to a field.  The name of the type is looked up anew. -/
def setFieldType (a : Arrangement) (tag type : Json) : Arrangement :=
  a.modifyField tag fun p => { p with fieldTypeId := type.orElse (.str ""), type := none }

/-- Adds an option to a field; escapes in its text are decoded, and a blank text
is no option. -/
def addOption (a : Arrangement) (tag : Json) (text : String) : Arrangement :=
  if (Text.trim text.toList).isEmpty then a
  else
    a.modifyField tag fun p =>
      { p with options := p.options ++ [Text.mapChars Text.unescape text] }

/-- Takes an option out of a field, wherever it occurs. -/
def removeOption (a : Arrangement) (tag value : Json) : Arrangement :=
  a.modifyField tag fun p =>
    { p with options := p.options.filter fun option => Json.str option != value }

/-- Goes back to the initial pool, without steps and selection. -/
def reset (a : Arrangement) : Arrangement :=
  start a.initialPool

end Stencil.Arrangement
