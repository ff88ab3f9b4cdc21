import Stencil.Routing

/-!
# Arrangements

An operator arranges placeholders into steps.  An arrangement holds the pool of
placeholders that stand in no step yet, the steps in order, the selected tags
and the pool to which everything can be reset.

Selected tags are counted the way an operator sees them: the selected members of
a group in the pool count as one, and a step counts when all of its fields are
selected.
-/

namespace Stencil

/-- A step of a form.  Its title is what an operator entered and is examined when
the form is compiled. -/
structure Step where
  title : Json
  fields : List Placeholder := []
  isGroup : Bool := false
  deriving DecidableEq, Repr, Inhabited

namespace Step

/-- Reads a step from the fields of a record.  The group flag has two names, of
which the first wins. -/
def ofFields (fields : Record.Fields) : Except Rejection Step :=
  let flagName := if (Json.field? fields "isGroup").isSome then "isGroup" else "is_group"
  let isGroup := match Json.field? fields flagName with
    | some value => Checked.below flagName (Record.flag value)
    | none => .sound false
  Checked.toExcept <|
    ((Record.requiredText fields "title").both <|
      (Record.listOr Placeholder.checkItem fields "fields").both isGroup).map
    fun (title, placeholders, isGroup) => ⟨.str title, placeholders, isGroup⟩

/-- The tags of a step's fields. -/
def tags (step : Step) : List String :=
  step.fields.map (·.fullTagName)

/-- The title of the step with a number. -/
def numberedTitle (number : Nat) : String :=
  "Step " ++ toString number

end Step

/-- The arrangement of placeholders into steps. -/
structure Arrangement where
  pool : List Placeholder := []
  steps : List Step := []
  selected : List String := []
  initialPool : List Placeholder := []
  deriving DecidableEq, Repr, Inhabited

namespace Arrangement

/-- An arrangement with all placeholders in the pool. -/
def start (pool : List Placeholder) : Arrangement :=
  { pool, initialPool := pool }

/-- The arrangement that an operator begins with.  Where settings are given,
reserved placeholders are left out. -/
def create (placeholders : List Placeholder) (settings : Option Settings) : Arrangement :=
  match settings with
  | some settings => start (Routing.visible placeholders settings)
  | none => start placeholders

/-- Tells whether a tag is selected. -/
def isSelected (a : Arrangement) (tag : String) : Bool :=
  a.selected.contains tag

/-- The selected placeholders of the pool. -/
def selectedPool (a : Arrangement) : List Placeholder :=
  a.pool.filter fun p => a.isSelected p.fullTagName

/-- The elements of a list without repeats, each at its first place. -/
def distinct (names : List String) : List String :=
  names.foldl (fun seen name => if seen.contains name then seen else seen ++ [name]) []

/-- The number of items selected in the pool, a group counting as one. -/
def selectedPoolCount (a : Arrangement) : Nat :=
  (a.selectedPool.filter fun p => p.groupName.isNone).length
    + (distinct (a.selectedPool.filterMap Placeholder.groupName)).length

/-- Tells whether a step has fields and all of them are selected. -/
def isStepSelected (a : Arrangement) (step : Step) : Bool :=
  !step.fields.isEmpty && step.tags.all a.isSelected

/-- The number of steps whose every field is selected. -/
def selectedStepCount (a : Arrangement) : Nat :=
  (a.steps.filter a.isStepSelected).length

/-- Tells whether there is something to move into a new step. -/
def canMoveRight (a : Arrangement) : Bool :=
  0 < a.selectedPoolCount

/-- Tells whether there is a whole step to move back into the pool. -/
def canMoveLeft (a : Arrangement) : Bool :=
  0 < a.selectedStepCount

/-- The groups of the pool in order of first occurrence. -/
def groupNames (a : Arrangement) : List String :=
  distinct (a.pool.filterMap Placeholder.groupName)

/-- Tells whether a tag begins with the name of a group and a dot. -/
def isMember (group tag : String) : Bool :=
  (group.toList ++ [groupMark]).isPrefixOf tag.toList

/-- The members of a group in the pool. -/
def groupMembers (a : Arrangement) (group : String) : List Placeholder :=
  a.pool.filter fun p => isMember group p.fullTagName

/-- The tags of the members of a group in the pool. -/
def memberTags (a : Arrangement) (group : String) : List String :=
  (a.groupMembers group).map (·.fullTagName)

/-- Tells whether a group has members in the pool and all of them are selected. -/
def isGroupSelected (a : Arrangement) (group : String) : Bool :=
  let tags := a.memberTags group
  !tags.isEmpty && tags.all a.isSelected

/-- The position of the first placeholder with a tag. -/
def fieldIndex? (fields : List Placeholder) (tag : Json) : Option Nat :=
  fields.findIdx? fun p => Json.str p.fullTagName == tag

/-- The step and the position within it of the first field with a tag. -/
def findFieldFrom (tag : Json) : (index : Nat) → List Step → Option (Nat × Nat)
  | _, [] => none
  | index, step :: rest =>
    match fieldIndex? step.fields tag with
    | some position => some (index, position)
    | none => findFieldFrom tag (index + 1) rest

/-- The step and the position within it of the first field with a tag. -/
def findField (a : Arrangement) (tag : Json) : Option (Nat × Nat) :=
  findFieldFrom tag 0 a.steps

/-- The tags of the pool. -/
def poolTags (a : Arrangement) : List String :=
  a.pool.map (·.fullTagName)

end Arrangement

end Stencil
