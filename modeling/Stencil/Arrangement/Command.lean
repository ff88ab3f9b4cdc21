import Stencil.Arrangement.Change

/-!
# Commands

A user interface changes an arrangement by commands: JSON objects with a type
and parameters.  `Command.ofFields` accepts the parameters that belong to the
type, no more and no fewer, whatever their values are.  `Command.run` examines
the values as it comes to them.

An index is compared with the number of elements before it is used.  Any number
can be compared, truth values included, and an index out of range leaves the
arrangement as it was; but a floating number within range is no position.
-/

namespace Stencil

/-- Why a command is refused. -/
inductive CommandError where
  /-- No command has this type. -/
  | unknownType (type : Json)
  /-- A list or an object cannot be the type of a command. -/
  | unusableType
  /-- Parameters are missing, unknown or cannot be used as they are. -/
  | unfitParameters (type : String)
  /-- A parameter that must be a text is none. -/
  | textExpected
  deriving DecidableEq, Repr

/-- The text of a refusal. -/
def CommandError.message : CommandError → String
  | .unknownType type => "Unknown organizer action: " ++ type.shown
  | .unusableType => "The type of an action must be a text"
  | .unfitParameters type => "Invalid parameters for " ++ "'" ++ type ++ "'"
  | .textExpected => "A text was expected"

/-- A command with its parameters. -/
inductive Command where
  | toggleSelect (tag asGroup : Json)
  | toggleGroup (group : Json)
  | toggleStep (index : Json)
  | moveRight
  | moveLeft
  | reorder (index source target targetStep : Json)
  | setTitle (index title : Json)
  | setFieldType (tag type : Json)
  | addOption (tag text : Json)
  | removeOption (tag value : Json)
  | reset
  deriving DecidableEq, Repr

namespace Command

/-- The names of the parameters of a type: those that must be given and those
that may be. -/
def parameters? : String → Option (List String × List String)
  | "toggle_select" => some (["tag"], ["as_group"])
  | "toggle_group_checkbox" => some (["group_name"], [])
  | "toggle_step" => some (["step_index"], [])
  | "move_right" => some ([], [])
  | "move_left" => some ([], [])
  | "reorder_within_step" => some (["step_index", "from_index", "to_index"], ["to_step_index"])
  | "set_step_title" => some (["step_index", "title"], [])
  | "set_field_type" => some (["tag", "field_type_id"], [])
  | "add_option" => some (["tag", "raw_value"], [])
  | "remove_option" => some (["tag", "value"], [])
  | "reset" => some ([], [])
  | _ => none

/-- The command of a type with its parameters. -/
def build? (type : String) (get : String → Json) : Option Command :=
  match type with
  | "toggle_select" => some (.toggleSelect (get "tag") (get "as_group"))
  | "toggle_group_checkbox" => some (.toggleGroup (get "group_name"))
  | "toggle_step" => some (.toggleStep (get "step_index"))
  | "move_right" => some .moveRight
  | "move_left" => some .moveLeft
  | "reorder_within_step" =>
    some (.reorder (get "step_index") (get "from_index") (get "to_index") (get "to_step_index"))
  | "set_step_title" => some (.setTitle (get "step_index") (get "title"))
  | "set_field_type" => some (.setFieldType (get "tag") (get "field_type_id"))
  | "add_option" => some (.addOption (get "tag") (get "raw_value"))
  | "remove_option" => some (.removeOption (get "tag") (get "value"))
  | "reset" => some .reset
  | _ => none

/-- Tells whether the parameters given are all that are needed and none besides. -/
def parametersFit (needed allowed : List String) (given : Record.Fields) : Bool :=
  (needed.all fun name => (Json.field? given name).isSome)
    && given.all fun entry => needed.contains entry.1 || allowed.contains entry.1

/-- Reads a command from the fields of an object. -/
def ofFields (fields : Record.Fields) : Except CommandError Command :=
  let given := fields.filter fun entry => entry.1 != "type"
  let get (name : String) : Json := (Json.field? given name).getD .null
  match (Json.field? fields "type").getD .null with
  | .arr _ | .obj _ => .error .unusableType
  | .str type =>
    match parameters? type, build? type get with
    | some (needed, allowed), some command =>
      if parametersFit needed allowed given then .ok command else .error (.unfitParameters type)
    | _, _ => .error (.unknownType (.str type))
  | type => .error (.unknownType type)

/-- The type of a command. -/
def type : Command → String
  | toggleSelect .. => "toggle_select"
  | toggleGroup .. => "toggle_group_checkbox"
  | toggleStep .. => "toggle_step"
  | moveRight => "move_right"
  | moveLeft => "move_left"
  | reorder .. => "reorder_within_step"
  | setTitle .. => "set_step_title"
  | setFieldType .. => "set_field_type"
  | addOption .. => "add_option"
  | removeOption .. => "remove_option"
  | reset => "reset"

/-- Tells whether an index is at least zero and less than a number of elements;
nothing for a value that is no number. -/
def inRange? (index : Json) (size : Nat) : Option Bool :=
  match index with
  | .bool b => some ((if b then 1 else 0) < size)
  | .int n => some (0 ≤ n && n < size)
  | .real x => some (x.isWithin size)
  | _ => none

/-- The position that an index within range stands for; floating numbers stand
for none. -/
def position? : Json → Option Nat
  | .bool b => some (if b then 1 else 0)
  | .int n => some n.toNat
  | _ => none

/-- Changes an arrangement at an index of a list of some size. -/
def atIndex (unfit : CommandError) (a : Arrangement) (index : Json) (size : Nat)
    (change : Nat → Except CommandError Arrangement) : Except CommandError Arrangement :=
  match inRange? index size with
  | none => .error unfit
  | some false => .ok a
  | some true =>
    match position? index with
    | some position => change position
    | none => .error unfit

/-- Moves a field of a step when both positions are within range. -/
def reorderFields (unfit : CommandError) (a : Arrangement) (step : Nat) (source target : Json) :
    Except CommandError Arrangement :=
  let size := ((a.steps[step]?).getD default).fields.length
  match inRange? source size with
  | none => .error unfit
  | some false => .ok a
  | some true =>
    match inRange? target size with
    | none => .error unfit
    | some false => .ok a
    | some true =>
      match position? source, position? target with
      | some source, some target => .ok (a.reorder step source target)
      | _, _ => .error unfit

/-- Applies a command to an arrangement. -/
def run (command : Command) (a : Arrangement) : Except CommandError Arrangement :=
  let unfit : CommandError := .unfitParameters command.type
  match command with
  | toggleSelect tag asGroup =>
    match tag with
    | .str tag => .ok (a.toggleSelect tag asGroup.isGiven)
    | _ => .error .textExpected
  | toggleGroup group => .ok (a.toggleGroup group.plain)
  | toggleStep index => atIndex unfit a index a.steps.length fun i => .ok (a.toggleStep i)
  | moveRight => .ok a.moveRight
  | moveLeft => .ok a.moveLeft
  | reorder index source target targetStep =>
    if targetStep != .null && !targetStep.agrees index then .ok a
    else
      atIndex unfit a index a.steps.length fun i => reorderFields unfit a i source target
  | setTitle index title => atIndex unfit a index a.steps.length fun i => .ok (a.setTitle i title)
  | setFieldType tag type => .ok (a.setFieldType tag type)
  | addOption tag text =>
    if !text.isGiven then .ok a
    else
      match text with
      | .str text => .ok (a.addOption tag text)
      | _ => .error .textExpected
  | removeOption tag value => .ok (a.removeOption tag value)
  | reset => .ok a.reset

end Command

/-- Applies a command given as the fields of an object. -/
def Arrangement.apply (a : Arrangement) (fields : Record.Fields) :
    Except CommandError Arrangement :=
  match Command.ofFields fields with
  | .ok command => command.run a
  | .error refused => .error refused

end Stencil
