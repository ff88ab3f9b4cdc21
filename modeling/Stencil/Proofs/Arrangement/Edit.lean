import Stencil.Arrangement.Journal

/-!
# What commands do to an arrangement

A command comes with any parameters, and most of what is examined in it only decides
whether and where it applies.  `Command.Makes` says, command by command, what is left
when that is settled, and `Edit` says it without regard to the command: an accepted
command leaves the arrangement as it was or makes one of nine changes.  What every
accepted command keeps holds after every run of commands.
-/

namespace Stencil

/-- The second arrangement is what some accepted command makes of the first. -/
inductive Arrangement.Edit (a : Arrangement) : Arrangement → Prop where
  | unchanged : Edit a a
  | select (tags : List String) (shouldSelect : Bool) : Edit a (a.setSelected tags shouldSelect)
  | moveRight : Edit a a.moveRight
  | moveLeft : Edit a a.moveLeft
  | reorder (index source target : Nat) : Edit a (a.reorder index source target)
  | setTitle (index : Nat) (title : Json) : Edit a (a.setTitle index title)
  | setFieldType (tag type : Json) : Edit a (a.setFieldType tag type)
  | addOption (tag : Json) (text : String) : Edit a (a.addOption tag text)
  | removeOption (tag value : Json) : Edit a (a.removeOption tag value)
  | reset : Edit a a.reset

namespace Arrangement

/-- Two arrangements that differ in what is selected, if at all. -/
def Selects (a b : Arrangement) : Prop :=
  b = a ∨ ∃ tags shouldSelect, b = a.setSelected tags shouldSelect

theorem selects_toggleSelect (a : Arrangement) (tag : String) (asGroup : Bool) :
    a.Selects (a.toggleSelect tag asGroup) := by
  unfold toggleSelect
  dsimp only
  generalize (if asGroup then a.memberTags (Placeholder.groupOf tag) else []) = members
  split
  · exact .inr ⟨_, _, rfl⟩
  · split
    · exact .inr ⟨_, _, rfl⟩
    · exact .inr ⟨_, _, rfl⟩

theorem selects_toggleGroup (a : Arrangement) (group : String) :
    a.Selects (a.toggleGroup group) := by
  unfold toggleGroup
  dsimp only
  split
  · exact .inl rfl
  · exact .inr ⟨_, _, rfl⟩

theorem selects_toggleStep (a : Arrangement) (index : Nat) : a.Selects (a.toggleStep index) := by
  unfold toggleStep
  split
  · exact .inr ⟨_, _, rfl⟩
  · exact .inl rfl

theorem edit_of_selects {a b : Arrangement} (selects : a.Selects b) : a.Edit b := by
  rcases selects with rfl | ⟨tags, shouldSelect, rfl⟩
  · exact .unchanged
  · exact .select tags shouldSelect

end Arrangement

namespace Command

/-- The position in a list of some size that an index stands for, if there is one. -/
def addressed? (index : Json) (size : Nat) : Option Nat :=
  match inRange? index size with
  | some true => position? index
  | _ => none

theorem lt_of_addressed {index : Json} {size position : Nat}
    (addressed : addressed? index size = some position) : position < size := by
  unfold addressed? at addressed
  split at addressed
  · next within =>
      cases index with
      | bool value =>
          cases addressed
          simpa [inRange?] using within
      | int n =>
          cases addressed
          simp only [inRange?, Option.some.injEq, Bool.and_eq_true, decide_eq_true_eq] at within
          omega
      | real x => cases addressed
      | null => cases addressed
      | str text => cases addressed
      | arr items => cases addressed
      | obj fields => cases addressed
  · cases addressed

/-- An index that stands for a position leads to a change there. -/
theorem atIndex_of_addressed {unfit : CommandError} {a : Arrangement} {index : Json}
    {size position : Nat} {change : Nat → Except CommandError Arrangement}
    (addressed : addressed? index size = some position) :
    atIndex unfit a index size change = change position := by
  unfold addressed? at addressed
  split at addressed
  · next within => simp only [atIndex, within, addressed]
  · cases addressed

/-- An index that passes leads to a change at a position of the list; any other leaves
the arrangement as it was or is refused. -/
theorem atIndex_eq_ok {unfit : CommandError} {a b : Arrangement} {index : Json} {size : Nat}
    {change : Nat → Except CommandError Arrangement}
    (accepted : atIndex unfit a index size change = .ok b) :
    b = a ∨ ∃ position, addressed? index size = some position ∧ change position = .ok b := by
  unfold atIndex at accepted
  split at accepted
  · cases accepted
  · cases accepted
    exact .inl rfl
  · next within =>
      split at accepted
      · next position found =>
          exact .inr ⟨position, by simp only [addressed?, within, found], accepted⟩
      · cases accepted

/-- Two positions that pass lead to a reordering. -/
theorem reorderFields_eq_ok {unfit : CommandError} {a b : Arrangement} {step : Nat}
    {source target : Json} (accepted : reorderFields unfit a step source target = .ok b) :
    b = a ∨ ∃ first last, b = a.reorder step first last := by
  unfold reorderFields at accepted
  dsimp only at accepted
  split at accepted
  · cases accepted
  · cases accepted
    exact .inl rfl
  · split at accepted
    · cases accepted
    · cases accepted
      exact .inl rfl
    · split at accepted
      · cases accepted
        exact .inr ⟨_, _, rfl⟩
      · cases accepted

/-- The second arrangement is what a command makes of the first when it is accepted. -/
def Makes (a b : Arrangement) : Command → Prop
  | toggleSelect _ _ | toggleGroup _ | toggleStep _ => a.Selects b
  | moveRight => b = a.moveRight
  | moveLeft => b = a.moveLeft
  | reorder _ _ _ _ => b = a ∨ ∃ index source target, b = a.reorder index source target
  | setTitle index title =>
    b = a ∨ ∃ position, addressed? index a.steps.length = some position ∧
      b = a.setTitle position title
  | setFieldType tag type => b = a.setFieldType tag type
  | addOption tag _ => b = a ∨ ∃ text, b = a.addOption tag text
  | removeOption tag value => b = a.removeOption tag value
  | reset => b = a.reset

theorem makes_of_run {command : Command} {a b : Arrangement} (accepted : command.run a = .ok b) :
    command.Makes a b := by
  cases command with
  | toggleSelect tag asGroup =>
      simp only [run] at accepted
      split at accepted
      · cases accepted
        exact a.selects_toggleSelect _ _
      · cases accepted
  | toggleGroup group =>
      cases accepted
      exact a.selects_toggleGroup _
  | toggleStep index =>
      rcases atIndex_eq_ok accepted with rfl | ⟨position, _, changed⟩
      · exact .inl rfl
      · cases changed
        exact a.selects_toggleStep position
  | moveRight =>
      cases accepted
      rfl
  | moveLeft =>
      cases accepted
      rfl
  | reorder index source target targetStep =>
      simp only [run] at accepted
      split at accepted
      · cases accepted
        exact .inl rfl
      -- the step is looked up first, and the two places within it only then
      · rcases atIndex_eq_ok accepted with rfl | ⟨position, _, changed⟩
        · exact .inl rfl
        · rcases reorderFields_eq_ok changed with rfl | ⟨first, last, rfl⟩
          · exact .inl rfl
          · exact .inr ⟨position, first, last, rfl⟩
  | setTitle index title =>
      rcases atIndex_eq_ok accepted with rfl | ⟨position, addressed, changed⟩
      · exact .inl rfl
      · cases changed
        exact .inr ⟨position, addressed, rfl⟩
  | setFieldType tag type =>
      cases accepted
      rfl
  | addOption tag text =>
      simp only [run] at accepted
      split at accepted
      · cases accepted
        exact .inl rfl
      · split at accepted
        · cases accepted
          exact .inr ⟨_, rfl⟩
        · cases accepted
  | removeOption tag value =>
      cases accepted
      rfl
  | reset =>
      cases accepted
      rfl

theorem edit_of_makes {command : Command} {a b : Arrangement} (makes : command.Makes a b) :
    a.Edit b := by
  cases command with
  | toggleSelect tag asGroup => exact Arrangement.edit_of_selects makes
  | toggleGroup group => exact Arrangement.edit_of_selects makes
  | toggleStep index => exact Arrangement.edit_of_selects makes
  | moveRight =>
      obtain rfl := makes
      exact .moveRight
  | moveLeft =>
      obtain rfl := makes
      exact .moveLeft
  | reorder _ _ _ _ =>
      rcases makes with rfl | ⟨index, source, target, rfl⟩
      · exact .unchanged
      · exact .reorder index source target
  | setTitle _ title =>
      rcases makes with rfl | ⟨position, _, rfl⟩
      · exact .unchanged
      · exact .setTitle position title
  | setFieldType tag type =>
      obtain rfl := makes
      exact .setFieldType tag type
  | addOption tag _ =>
      rcases makes with rfl | ⟨text, rfl⟩
      · exact .unchanged
      · exact .addOption tag text
  | removeOption tag value =>
      obtain rfl := makes
      exact .removeOption tag value
  | reset =>
      obtain rfl := makes
      exact .reset

end Command

/-- An accepted object is a command that makes what comes of it. -/
theorem Arrangement.makes_of_apply {a b : Arrangement} {fields : Record.Fields}
    (accepted : a.apply fields = .ok b) :
    ∃ command, Command.ofFields fields = .ok command ∧ command.Makes a b := by
  unfold apply at accepted
  split at accepted
  · next command read => exact ⟨command, read, Command.makes_of_run accepted⟩
  · cases accepted

/-- An accepted object is an edit. -/
theorem Arrangement.edit_of_apply {a b : Arrangement} {fields : Record.Fields}
    (accepted : a.apply fields = .ok b) : a.Edit b := by
  obtain ⟨_, _, makes⟩ := makes_of_apply accepted
  exact Command.edit_of_makes makes

namespace Journal

theorem apply_of_dispatch {journal next : Journal} {fields : Record.Fields}
    (dispatched : journal.dispatch fields = .ok next) :
    journal.arrangement.apply fields = .ok next.arrangement := by
  unfold dispatch at dispatched
  split at dispatched
  · next applied =>
      cases dispatched
      exact applied
  · cases dispatched

theorem edit_of_dispatch {journal next : Journal} {fields : Record.Fields}
    (dispatched : journal.dispatch fields = .ok next) :
    journal.arrangement.Edit next.arrangement :=
  Arrangement.edit_of_apply (apply_of_dispatch dispatched)

/-- What every accepted command keeps, every run of commands keeps. -/
theorem dispatchAll_induction {holds : Arrangement → Prop}
    (keeps : ∀ {a b : Arrangement} {fields : Record.Fields},
      a.apply fields = .ok b → holds a → holds b)
    (journal : Journal) (start : holds journal.arrangement) (commands : List Record.Fields) :
    holds (journal.dispatchAll commands).arrangement := by
  induction commands generalizing journal with
  | nil => exact start
  | cons fields rest ih =>
      cases dispatched : journal.dispatch fields with
      | error refused =>
          simpa [dispatchAll, dispatched] using ih journal start
      | ok next =>
          simpa [dispatchAll, dispatched] using
            ih next (keeps (apply_of_dispatch dispatched) start)

end Journal

end Stencil
