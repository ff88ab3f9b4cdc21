import Stencil.Arrangement.Command

/-!
# How commands are refused

A command is refused in the documented way when its type is not known or its parameters do not
fit.  Of all objects three kinds are refused otherwise, whatever the arrangement: those whose type
is a list or an object, those that flip a tag which is no text, and those that add an option which
is given but no text.  The values of all other parameters are accepted, pass for an index out of
range or do not fit.
-/

namespace Stencil

/-- The documented ways to refuse a command are that its type is not known and that its parameters
do not fit. -/
def CommandError.isDocumented : CommandError → Bool
  | .unknownType _ | .unfitParameters _ => true
  | .unusableType | .textExpected => false

namespace Command

/-- Tells whether a command is accepted or refused in a documented way. -/
def isDocumented : Except CommandError Arrangement → Bool
  | .ok _ => true
  | .error refused => refused.isDocumented

/-- A command that comes upon a value which must be a text and is none. -/
def ExpectsText : Command → Prop
  | toggleSelect tag _ => ∀ text, tag ≠ .str text
  | addOption _ value => value.isGiven = true ∧ ∀ text, value ≠ .str text
  | _ => False

section Run

variable {a : Arrangement} {unfit : CommandError}

theorem isDocumented_atIndex (documented : unfit.isDocumented = true) (index : Json) (size : Nat)
    {change : Nat → Except CommandError Arrangement}
    (changes : ∀ position, isDocumented (change position) = true) :
    isDocumented (atIndex unfit a index size change) = true := by
  unfold atIndex
  split
  · exact documented
  · rfl
  · split
    · exact changes _
    · exact documented

theorem isDocumented_reorderFields (documented : unfit.isDocumented = true) (step : Nat)
    (source target : Json) : isDocumented (reorderFields unfit a step source target) = true := by
  unfold reorderFields
  dsimp only
  split
  · exact documented
  · rfl
  · split
    · exact documented
    · rfl
    · split
      · rfl
      · exact documented

/-- A command is refused in an undocumented way exactly when it comes upon a value that must be a
text. -/
theorem isDocumented_run_iff (command : Command) (a : Arrangement) :
    isDocumented (command.run a) = true ↔ ¬command.ExpectsText := by
  cases command with
  | toggleSelect tag asGroup =>
      cases tag with
      | str text => simp [run, isDocumented, ExpectsText]
      | _ => simp [run, isDocumented, ExpectsText, CommandError.isDocumented]
  | addOption tag value =>
      by_cases given : value.isGiven
      · cases value with
        | str text => simp [run, given, isDocumented, ExpectsText]
        | _ => simp [run, given, isDocumented, ExpectsText, CommandError.isDocumented]
      · simp [run, given, isDocumented, ExpectsText]
  | toggleStep index =>
      simp only [run, ExpectsText, not_false_eq_true, iff_true]
      exact isDocumented_atIndex rfl index _ fun _ => rfl
  | setTitle index title =>
      simp only [run, ExpectsText, not_false_eq_true, iff_true]
      exact isDocumented_atIndex rfl index _ fun _ => rfl
  | reorder index source target targetStep =>
      simp only [run, ExpectsText, not_false_eq_true, iff_true]
      split
      · rfl
      · exact isDocumented_atIndex rfl index _ fun i =>
          isDocumented_reorderFields rfl i source target
  | toggleGroup _ | moveRight | moveLeft | setFieldType _ _ | removeOption _ _ | reset =>
      simp [run, isDocumented, ExpectsText]

end Run

/-- An object gives all parameters that are needed, and none but these and the allowed ones. -/
structure GivesParameters (fields : Record.Fields) (needed allowed : List String) : Prop where
  given : ∀ name ∈ needed, ∃ value, Json.field? fields name = some value
  known : ∀ name value, (name, value) ∈ fields →
    name = "type" ∨ name ∈ needed ∨ name ∈ allowed

theorem field?_filter_ne {name : String} (notType : name ≠ "type") (fields : Record.Fields) :
    Json.field? (fields.filter fun entry => entry.1 != "type") name = Json.field? fields name := by
  induction fields with
  | nil => rfl
  | cons entry rest ih =>
      rcases entry with ⟨key, value⟩
      simp only [Json.field?] at ih ⊢
      by_cases isType : key = "type"
      · have other : (name == key) = false := beq_eq_false_iff_ne.mpr (isType ▸ notType)
        rw [List.filter_cons_of_neg (by simp [isType]), ih, List.lookup_cons, other]
      · rw [List.filter_cons_of_pos (by simp [isType]), List.lookup_cons, List.lookup_cons, ih]

theorem parametersFit_iff {fields : Record.Fields} {needed allowed : List String}
    (notType : "type" ∉ needed) :
    parametersFit needed allowed (fields.filter fun entry => entry.1 != "type") = true ↔
      GivesParameters fields needed allowed := by
  have given_iff : (∀ name ∈ needed,
        (Json.field? (fields.filter fun entry => entry.1 != "type") name).isSome = true) ↔
      ∀ name ∈ needed, ∃ value, Json.field? fields name = some value := by
    refine forall₂_congr fun name nameMem => ?_
    rw [field?_filter_ne (fun isType => notType (isType ▸ nameMem)), Option.isSome_iff_exists]
  simp only [parametersFit, Bool.and_eq_true, List.all_eq_true, given_iff, List.mem_filter,
    bne_iff_ne, Bool.or_eq_true, List.contains_iff_mem]
  constructor
  · rintro ⟨given, known⟩
    refine ⟨given, fun name value entryMem => ?_⟩
    by_cases isType : name = "type"
    · exact .inl isType
    · exact .inr (known (name, value) ⟨entryMem, isType⟩)
  · rintro ⟨given, known⟩
    refine ⟨given, fun entry entryMem => ?_⟩
    exact (known entry.1 entry.2 entryMem.1).resolve_left entryMem.2

/-- The parameter with a name among the fields that are no type. -/
def parameter (fields : Record.Fields) (name : String) : Json :=
  (Json.field? (fields.filter fun entry => entry.1 != "type") name).getD .null

theorem parameter_eq {fields : Record.Fields} {name : String} {value : Json}
    (notType : name ≠ "type") (value_eq : Json.field? fields name = some value) :
    parameter fields name = value := by
  rw [parameter, field?_filter_ne notType, value_eq, Option.getD_some]

/-- An object is a command when its type is known and its parameters fit. -/
theorem ofFields_eq_ok_iff {fields : Record.Fields} {command : Command} :
    ofFields fields = .ok command ↔
      ∃ type needed allowed, Json.field? fields "type" = some (.str type) ∧
        parameters? type = some (needed, allowed) ∧
        build? type (parameter fields) = some command ∧
        parametersFit needed allowed (fields.filter fun entry => entry.1 != "type") = true := by
  cases type_eq : Json.field? fields "type" with
  | none => simp [ofFields, type_eq]
  | some value =>
      cases value with
      | str type =>
          simp only [ofFields, type_eq, Option.getD_some, Option.some.injEq, Json.str.injEq]
          split
          · next needed allowed built parameters_eq build_eq =>
              change build? type (parameter fields) = some built at build_eq
              constructor
              · intro accepted
                split at accepted
                · next fits =>
                    cases accepted
                    exact ⟨type, needed, allowed, rfl, parameters_eq, build_eq, fits⟩
                · cases accepted
              · rintro ⟨_, _, _, rfl, same_parameters, same_build, fits⟩
                cases parameters_eq.symm.trans same_parameters
                cases build_eq.symm.trans same_build
                exact if_pos fits
          · next none_built =>
              simp only [reduceCtorEq, false_iff]
              rintro ⟨_, needed, allowed, rfl, parameters_eq, build_eq, _⟩
              exact none_built needed allowed command parameters_eq build_eq
      | _ => simp [ofFields, type_eq]

/-- An object is refused in an undocumented way only for its type. -/
theorem isDocumented_eq_false_iff_of_ofFields {fields : Record.Fields} {refused : CommandError}
    (refuses : ofFields fields = .error refused) :
    refused.isDocumented = false ↔
      (∃ items, Json.field? fields "type" = some (.arr items)) ∨
        ∃ entries, Json.field? fields "type" = some (.obj entries) := by
  cases type_eq : Json.field? fields "type" with
  | none =>
      simp only [ofFields, type_eq, Option.getD_none, Except.error.injEq] at refuses
      simp [← refuses, CommandError.isDocumented]
  | some value =>
      cases value with
      | str type =>
          simp only [ofFields, type_eq, Option.getD_some] at refuses
          split at refuses
          · split at refuses
            · cases refuses
            · cases refuses
              simp [CommandError.isDocumented]
          · cases refuses
            simp [CommandError.isDocumented]
      | _ =>
          simp only [ofFields, type_eq, Option.getD_some, Except.error.injEq] at refuses
          simp [← refuses, CommandError.isDocumented]

/-- Two types of commands expect a text. -/
theorem expectsText_of_build? {type : String} {get : String → Json} {command : Command}
    (built : build? type get = some command) (expects : command.ExpectsText) :
    (type = "toggle_select" ∧ command = .toggleSelect (get "tag") (get "as_group")) ∨
      (type = "add_option" ∧ command = .addOption (get "tag") (get "raw_value")) := by
  unfold build? at built
  split at built
  all_goals cases built
  · exact .inl ⟨rfl, rfl⟩
  case h_9 => exact .inr ⟨rfl, rfl⟩
  all_goals cases expects

/-- What makes a command be refused in an undocumented way. -/
inductive Breaks (fields : Record.Fields) : Prop
  /-- The type of the command is a list. -/
  | listType {items : List Json} (type_eq : Json.field? fields "type" = some (.arr items))
  /-- The type of the command is an object. -/
  | objectType {entries : Record.Fields}
      (type_eq : Json.field? fields "type" = some (.obj entries))
  /-- A tag is to be flipped and is no text. -/
  | tagExpected (type_eq : Json.field? fields "type" = some (.str "toggle_select"))
      (fits : GivesParameters fields ["tag"] ["as_group"])
      (notText : ∀ text, Json.field? fields "tag" ≠ some (.str text))
  /-- An option is to be added and is given, but no text. -/
  | optionExpected (type_eq : Json.field? fields "type" = some (.str "add_option"))
      (fits : GivesParameters fields ["tag", "raw_value"] []) {value : Json}
      (value_eq : Json.field? fields "raw_value" = some value) (given : value.isGiven = true)
      (notText : ∀ text, value ≠ .str text)

/-- An object with a type and parameters that fit is a command. -/
theorem apply_of_fits {fields : Record.Fields} {type : String} {needed allowed : List String}
    {command : Command} (type_eq : Json.field? fields "type" = some (.str type))
    (parameters_eq : parameters? type = some (needed, allowed)) (notType : "type" ∉ needed)
    (fits : GivesParameters fields needed allowed)
    (build_eq : build? type (parameter fields) = some command) (a : Arrangement) :
    a.apply fields = command.run a := by
  have read : ofFields fields = .ok command :=
    ofFields_eq_ok_iff.mpr
      ⟨type, needed, allowed, type_eq, parameters_eq, build_eq, (parametersFit_iff notType).mpr fits⟩
  rw [Arrangement.apply, read]

/-- Whatever breaks a command is refused in an undocumented way by every arrangement. -/
theorem Breaks.isDocumented_eq_false {fields : Record.Fields} (breaks : Breaks fields)
    (a : Arrangement) : isDocumented (a.apply fields) = false := by
  cases breaks with
  | listType type_eq =>
      simp [Arrangement.apply, ofFields, type_eq, isDocumented, CommandError.isDocumented]
  | objectType type_eq =>
      simp [Arrangement.apply, ofFields, type_eq, isDocumented, CommandError.isDocumented]
  | tagExpected type_eq fits notText =>
      obtain ⟨tag, tag_eq⟩ := fits.given "tag" List.mem_cons_self
      rw [apply_of_fits type_eq rfl (by decide) fits rfl, ← Bool.not_eq_true, isDocumented_run_iff,
        parameter_eq (by decide) tag_eq]
      exact not_not_intro fun text isText => notText text (isText ▸ tag_eq)
  | optionExpected type_eq fits value_eq given notText =>
      rw [apply_of_fits type_eq rfl (by decide) fits rfl, ← Bool.not_eq_true, isDocumented_run_iff,
        parameter_eq (by decide : "raw_value" ≠ "type") value_eq]
      exact not_not_intro ⟨given, notText⟩

theorem breaks_of_isDocumented_eq_false {fields : Record.Fields} {a : Arrangement}
    (undocumented : isDocumented (a.apply fields) = false) : Breaks fields := by
  unfold Arrangement.apply at undocumented
  split at undocumented
  · next command read =>
      rw [← Bool.not_eq_true, isDocumented_run_iff, Classical.not_not] at undocumented
      obtain ⟨type, needed, allowed, type_eq, parameters_eq, build_eq, fit⟩ :=
        ofFields_eq_ok_iff.mp read
      rcases expectsText_of_build? build_eq undocumented with ⟨rfl, rfl⟩ | ⟨rfl, rfl⟩
      · cases parameters_eq
        have fits := (parametersFit_iff (by decide)).mp fit
        refine .tagExpected type_eq fits fun text tag_eq => ?_
        exact undocumented text (parameter_eq (by decide) tag_eq)
      · cases parameters_eq
        have fits := (parametersFit_iff (by decide)).mp fit
        obtain ⟨value, value_eq⟩ := fits.given "raw_value" (by decide)
        obtain ⟨given, notText⟩ := undocumented
        rw [parameter_eq (by decide) value_eq] at given notText
        exact .optionExpected type_eq fits value_eq given notText
  · next refused refuses =>
      rcases (isDocumented_eq_false_iff_of_ofFields refuses).mp undocumented with
        ⟨items, type_eq⟩ | ⟨entries, type_eq⟩
      · exact .listType type_eq
      · exact .objectType type_eq

/-- A command is accepted, or refused because its type is not known or its parameters do not fit,
exactly when its type is neither a list nor an object, no tag is to be flipped that is no text and
no option is to be added that is given and no text. -/
theorem isDocumented_apply_iff (a : Arrangement) (fields : Record.Fields) :
    isDocumented (a.apply fields) = true ↔ ¬Breaks fields := by
  constructor
  · intro documented breaks
    rw [breaks.isDocumented_eq_false a] at documented
    cases documented
  · intro sound
    cases documented : isDocumented (a.apply fields) with
    | true => rfl
    | false => exact absurd (breaks_of_isDocumented_eq_false documented) sound

/-- A number in the place of a tag or of an option, and a list in the place of a type, are refused
in an undocumented way. -/
theorem number_is_no_tag :
    isDocumented (Arrangement.apply {} [("type", .str "toggle_select"), ("tag", .int 5)]) = false ∧
      isDocumented (Arrangement.apply {}
        [("type", .str "add_option"), ("tag", .str "A"), ("raw_value", .int 5)]) = false ∧
      isDocumented (Arrangement.apply {} [("type", .arr [])]) = false := by
  decide

end Command

end Stencil
