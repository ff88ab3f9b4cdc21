import Stencil.Proofs.Arrangement.Run
import Stencil.Proofs.Arrangement.Steps

/-!
# The group flag of a step

A step is flagged as a group when it is made of placeholders of which one has a dotted
tag.  Nothing takes the flag away, so in every arrangement a step with a dotted tag is
flagged.  But moving back all dotted tags of a step while other fields stay leaves a
flag for which nothing in the step accounts.  The flags are exact all along a run
exactly when no command of the run does that.
-/

namespace Stencil

open Placeholder Arrangement

namespace Step

/-- A field of the step has a dotted tag. -/
def HoldsGroup (step : Step) : Prop :=
  ∃ p ∈ step.fields, isDotted p.fullTagName = true

/-- The flag of the step tells whether a field has a dotted tag. -/
def IsFlagExact (step : Step) : Prop :=
  step.isGroup = true ↔ step.HoldsGroup

instance (step : Step) : Decidable step.HoldsGroup :=
  List.decidableBEx _ step.fields

instance (step : Step) : Decidable step.IsFlagExact :=
  inferInstanceAs (Decidable (_ ↔ _))

/-- Only the tags of the fields count. -/
theorem holdsGroup_congr {first second : Step}
    (tags_iff : ∀ tag, tag ∈ tagsOf first.fields ↔ tag ∈ tagsOf second.fields) :
    first.HoldsGroup ↔ second.HoldsGroup := by
  have by_tags (step : Step) :
      step.HoldsGroup ↔ ∃ tag ∈ tagsOf step.fields, isDotted tag = true := by
    simp [HoldsGroup]
  rw [by_tags, by_tags]
  simp only [tags_iff]

theorem holdsGroup_stepOf (title : Json) (fields : List Placeholder) :
    (stepOf title fields).HoldsGroup ↔ (stepOf title fields).isGroup = true := by
  have unnumbered : (stepOf title fields).HoldsGroup ↔ HoldsGroup { title, fields } :=
    holdsGroup_congr (by simp [stepOf])
  rw [unnumbered]
  simp [HoldsGroup, stepOf]

theorem holdsGroup_renumbered {step : Step} {fields : List Placeholder}
    (perm : fields.Perm step.fields) :
    HoldsGroup { step with fields := numbered fields } ↔ step.HoldsGroup := by
  apply holdsGroup_congr
  intro tag
  rw [tagsOf_numbered]
  exact (perm.map _).mem_iff

theorem holdsGroup_changed {step : Step} {change : Placeholder → Placeholder}
    (keeps : ∀ p, (change p).fullTagName = p.fullTagName) (position : Nat) :
    HoldsGroup { step with fields := step.fields.modify position change } ↔ step.HoldsGroup := by
  apply holdsGroup_congr
  intro tag
  rw [tagsOf, map_modify_of_keeps keeps]

theorem HoldsGroup.of_filter {step : Step} {chosen : Placeholder → Bool}
    (holds : HoldsGroup { step with fields := step.fields.filter chosen }) : step.HoldsGroup := by
  obtain ⟨p, pMem, dotted⟩ := holds
  exact ⟨p, List.mem_of_mem_filter pMem, dotted⟩

theorem stable_flagged : Stable fun step => step.HoldsGroup → step.isGroup = true where
  made title fields := (holdsGroup_stepOf title fields).mp
  renumbered perm flagged holds := flagged ((holdsGroup_renumbered perm).mp holds)
  titled _ flagged := flagged
  changed position keeps flagged holds :=
    flagged ((holdsGroup_changed (fun p => (keeps p).1) position).mp holds)

theorem stable_isFlagExact : Stable IsFlagExact where
  made title fields := (holdsGroup_stepOf title fields).symm
  renumbered perm exact := exact.trans (holdsGroup_renumbered perm).symm
  titled _ exact := exact
  changed position keeps exact :=
    exact.trans (holdsGroup_changed (fun p => (keeps p).1) position).symm

end Step

namespace Arrangement

/-- A command that takes all dotted tags out of a step and leaves other fields in it. -/
def StripsGroup (a : Arrangement) (fields : Record.Fields) : Prop :=
  Command.ofFields fields = .ok .moveLeft ∧
    ∃ step ∈ a.steps, step.HoldsGroup ∧
      (a.remainder step).fields ≠ [] ∧ ¬(a.remainder step).HoldsGroup

variable {a b : Arrangement} {fields : Record.Fields}

/-- An accepted command keeps exact flags exact unless it strips a step. -/
theorem isFlagExact_of_apply (applied : a.apply fields = .ok b) (keeps : ¬a.StripsGroup fields)
    (exact : ∀ step ∈ a.steps, step.IsFlagExact) : ∀ step ∈ b.steps, step.IsFlagExact := by
  obtain ⟨command, read, makes⟩ := makes_of_apply applied
  refine Step.stable_isFlagExact.of_makes makes ?_ exact
  rintro rfl step stepMem
  rcases mem_steps_moveLeft stepMem with same | ⟨old, oldMem, left, rfl⟩
  · exact exact step same
  · constructor
    · intro flagged
      have held : old.HoldsGroup := (exact old oldMem).mp flagged
      by_contra bare
      exact keeps ⟨read, old, oldMem, held, left, bare⟩
    · intro holds
      exact (exact old oldMem).mpr holds.of_filter

/-- Stripping a step leaves a flag that is not exact. -/
theorem exists_of_stripsGroup (exact : ∀ step ∈ a.steps, step.IsFlagExact)
    (strips : a.StripsGroup fields) :
    ∃ b, a.apply fields = .ok b ∧ ¬∀ step ∈ b.steps, step.IsFlagExact := by
  obtain ⟨read, step, stepMem, holds, left, bare⟩ := strips
  refine ⟨a.moveLeft, by simp only [apply, read, Command.run], ?_⟩
  intro exactAfter
  have flagged : (a.remainder step).isGroup = true := (exact step stepMem).mpr holds
  exact bare ((exactAfter _ (remainder_mem_steps_moveLeft stepMem left)).mp flagged)

end Arrangement

namespace Journal

/-- After every run a step with a dotted tag is flagged as a group.  The flags say no more
than that all along a run exactly when no command of the run strips a step. -/
theorem groupFlags_of_run (placeholders : List Placeholder) (settings : Option Settings)
    (limit : Nat) (commands : List Record.Fields) :
    let reached (done : List Record.Fields) : Arrangement :=
      ((create placeholders settings limit).dispatchAll done).arrangement
    (∀ step ∈ (reached commands).steps, step.HoldsGroup → step.isGroup = true) ∧
      ((∀ done, done <+: commands → ∀ step ∈ (reached done).steps, step.IsFlagExact) ↔
        ∀ done fields, done ++ [fields] <+: commands → ¬(reached done).StripsGroup fields) := by
  intro reached
  have stepless : (create placeholders settings limit).arrangement.steps = [] :=
    steps_create placeholders settings
  constructor
  · apply Step.stable_flagged.of_dispatchAll
    · intro step chosen flagged holds
      exact flagged holds.of_filter
    · simp [stepless]
  · exact throughout_iff id isFlagExact_of_apply exists_of_stripsGroup _ (by simp [stepless]) commands

/-- A step that loses its only dotted tag keeps the flag. -/
theorem stripped_step_stays_flagged :
    let a := ((create [{ fullTagName := "A.b" }, { fullTagName := "C" }] none 200).dispatchAll
      [toggleCommand "A.b", toggleCommand "C", moveRightCommand, toggleCommand "A.b",
        moveLeftCommand]).arrangement
    a.steps.map (fun step => (step.tags, step.isGroup)) = [(["C"], true)] ∧
      ∃ step ∈ a.steps, ¬step.IsFlagExact := by
  decide +kernel

end Journal

end Stencil
