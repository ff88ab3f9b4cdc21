import Mathlib.Data.List.Induction
import Stencil.Proofs.Arrangement.Edit

/-!
# Runs of commands

A run of commands passes over those that are refused.  What it comes to is what the
accepted commands alone come to when they are applied one after the other.  A
property of arrangements holds all along a run exactly when no command of the run
breaks it where that command is applied.
-/

namespace Stencil

namespace Arrangement

/-- Applies commands one after the other; the first refusal ends the run. -/
def applyAll (a : Arrangement) (commands : List Record.Fields) : Except CommandError Arrangement :=
  commands.foldlM apply a

theorem applyAll_cons (a : Arrangement) (fields : Record.Fields) (rest : List Record.Fields) :
    a.applyAll (fields :: rest) = a.apply fields >>= fun b => b.applyAll rest :=
  rfl

theorem applyAll_append (a : Arrangement) (first second : List Record.Fields) :
    a.applyAll (first ++ second) = a.applyAll first >>= fun b => b.applyAll second :=
  List.foldlM_append

/-- The commands that are accepted when a run passes over those that are refused. -/
def accepted (a : Arrangement) : List Record.Fields → List Record.Fields
  | [] => []
  | fields :: rest =>
    match a.apply fields with
    | .ok b => fields :: b.accepted rest
    | .error _ => a.accepted rest

theorem accepted_of_ok {a b : Arrangement} {fields : Record.Fields}
    (applied : a.apply fields = .ok b) (rest : List Record.Fields) :
    a.accepted (fields :: rest) = fields :: b.accepted rest := by
  simp only [accepted, applied]

theorem accepted_of_error {a : Arrangement} {fields : Record.Fields} {refused : CommandError}
    (applied : a.apply fields = .error refused) (rest : List Record.Fields) :
    a.accepted (fields :: rest) = a.accepted rest := by
  simp only [accepted, applied]

end Arrangement

namespace Journal

variable {journal : Journal} {fields : Record.Fields}

/-- A journal with a command that made an arrangement of the one before. -/
def kept (journal : Journal) (fields : Record.Fields) (b : Arrangement) : Journal :=
  { journal with
    arrangement := b
    history := lastOf journal.limit (journal.history ++ [fields]) }

theorem dispatch_of_ok {b : Arrangement} (applied : journal.arrangement.apply fields = .ok b) :
    journal.dispatch fields = .ok (journal.kept fields b) := by
  simp only [dispatch, applied, kept]

theorem dispatch_of_error {refused : CommandError}
    (applied : journal.arrangement.apply fields = .error refused) :
    journal.dispatch fields = .error refused := by
  simp only [dispatch, applied]

@[simp]
theorem dispatchAll_nil (journal : Journal) : journal.dispatchAll [] = journal :=
  rfl

theorem dispatchAll_append (journal : Journal) (first second : List Record.Fields) :
    journal.dispatchAll (first ++ second) = (journal.dispatchAll first).dispatchAll second :=
  List.foldl_append

theorem dispatchAll_cons_of_ok {b : Arrangement}
    (applied : journal.arrangement.apply fields = .ok b) (rest : List Record.Fields) :
    journal.dispatchAll (fields :: rest) = (journal.kept fields b).dispatchAll rest := by
  simp only [dispatchAll, List.foldl_cons, dispatch_of_ok applied]

/-- A refused command changes nothing. -/
theorem dispatchAll_cons_of_error {refused : CommandError}
    (applied : journal.arrangement.apply fields = .error refused) (rest : List Record.Fields) :
    journal.dispatchAll (fields :: rest) = journal.dispatchAll rest := by
  simp only [dispatchAll, List.foldl_cons, dispatch_of_error applied]

/-- The accepted commands alone lead to where the run leads. -/
theorem applyAll_accepted (journal : Journal) (commands : List Record.Fields) :
    journal.arrangement.applyAll (journal.arrangement.accepted commands) =
      .ok (journal.dispatchAll commands).arrangement := by
  induction commands generalizing journal with
  | nil => rfl
  | cons fields rest ih =>
      cases applied : journal.arrangement.apply fields with
      | error refused =>
          rw [Arrangement.accepted_of_error applied, dispatchAll_cons_of_error applied]
          exact ih journal
      | ok b =>
          rw [Arrangement.accepted_of_ok applied, dispatchAll_cons_of_ok applied,
            Arrangement.applyAll_cons, applied]
          exact ih (journal.kept fields b)

/-- A run of the accepted commands alone leaves the same journal. -/
theorem dispatchAll_accepted (journal : Journal) (commands : List Record.Fields) :
    journal.dispatchAll (journal.arrangement.accepted commands) = journal.dispatchAll commands := by
  induction commands generalizing journal with
  | nil => rfl
  | cons fields rest ih =>
      cases applied : journal.arrangement.apply fields with
      | error refused =>
          rw [Arrangement.accepted_of_error applied, dispatchAll_cons_of_error applied]
          exact ih journal
      | ok b =>
          rw [Arrangement.accepted_of_ok applied, dispatchAll_cons_of_ok applied,
            dispatchAll_cons_of_ok applied]
          exact ih (journal.kept fields b)

/-- The object of the command that flips the selection of a tag. -/
def toggleCommand (tag : String) : Record.Fields :=
  [("type", .str "toggle_select"), ("tag", .str tag)]

/-- The object of the command that moves the selection into a new step. -/
def moveRightCommand : Record.Fields :=
  [("type", .str "move_right")]

/-- The object of the command that moves the selection back into the pool. -/
def moveLeftCommand : Record.Fields :=
  [("type", .str "move_left")]

/-- The object of the command that enters the title of a step. -/
def setTitleCommand (index title : Json) : Record.Fields :=
  [("type", .str "set_step_title"), ("step_index", index), ("title", title)]

/-- The object of the command that enters the value type of a field. -/
def setFieldTypeCommand (tag type : Json) : Record.Fields :=
  [("type", .str "set_field_type"), ("tag", tag), ("field_type_id", type)]

/-- What is seen of a property that commands keep unless they break it is seen all along a
run exactly when no command breaks the property where it is applied. -/
theorem throughout_iff {holds seen : Arrangement → Prop}
    {breaks : Arrangement → Record.Fields → Prop}
    (seen_of_holds : ∀ {a}, holds a → seen a)
    (keeps : ∀ {a b fields}, a.apply fields = .ok b → ¬breaks a fields → holds a → holds b)
    (spoils : ∀ {a fields}, seen a → breaks a fields → ∃ b, a.apply fields = .ok b ∧ ¬seen b)
    (journal : Journal) (start : holds journal.arrangement) (commands : List Record.Fields) :
    (∀ done, done <+: commands → seen (journal.dispatchAll done).arrangement) ↔
      ∀ done fields, done ++ [fields] <+: commands →
        ¬breaks (journal.dispatchAll done).arrangement fields := by
  constructor
  · intro always done fields isDone broken
    have before := always done ((List.prefix_append done [fields]).trans isDone)
    obtain ⟨b, applied, unseen⟩ := spoils before broken
    apply unseen
    have after := always (done ++ [fields]) isDone
    rwa [dispatchAll_append, dispatchAll_cons_of_ok applied] at after
  · intro unbroken
    suffices ∀ done, done <+: commands → holds (journal.dispatchAll done).arrangement from
      fun done isDone => seen_of_holds (this done isDone)
    intro done
    -- from the end of a prefix: its last command is applied where the rest has led
    induction done using List.reverseRecOn with
    | nil => exact fun _ => start
    | append_singleton done fields ih =>
        intro isDone
        have before := ih ((List.prefix_append done [fields]).trans isDone)
        rw [dispatchAll_append]
        cases applied : (journal.dispatchAll done).arrangement.apply fields with
        | error refused => rwa [dispatchAll_cons_of_error applied]
        | ok b =>
            rw [dispatchAll_cons_of_ok applied]
            exact keeps applied (unbroken done fields isDone) before

end Journal

end Stencil
