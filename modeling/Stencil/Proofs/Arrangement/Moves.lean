import Stencil.Proofs.Arrangement.Conservation
import Stencil.Proofs.Arrangement.Run
import Stencil.Proofs.Arrangement.Selection
import Stencil.Proofs.Arrangement.Steps

/-!
# The two moves

The numbers of selected items and of selected steps tell beforehand what the moves will do: there
is something to move to the right exactly when some item is selected, and moving to the left does
away with as many steps as are selected.  The latter needs that no step is empty, as an empty step
does not count as selected and goes all the same.  What was moved to the right goes back when its
step is selected, and no older step is touched, as none of them holds a tag of the pool.
-/

namespace Stencil

open Placeholder

namespace Arrangement

theorem itemCount_pos_iff {group : Placeholder → Option String} {fields : List Placeholder} :
    0 < itemCount group fields ↔ fields ≠ [] := by
  constructor
  · rintro counted rfl
    exact absurd counted (Nat.lt_irrefl 0)
  · intro filled
    obtain ⟨p, pMem⟩ := List.exists_mem_of_ne_nil _ filled
    cases named : group p with
    | none =>
        have alone : p ∈ fields.filter fun p => (group p).isNone :=
          List.mem_filter.mpr ⟨pMem, by rw [named, Option.isNone_none]⟩
        exact Nat.add_pos_left (List.length_pos_of_mem alone) _
    | some name =>
        have grouped : name ∈ distinct (fields.filterMap group) :=
          mem_distinct.mpr (List.mem_filterMap.mpr ⟨p, pMem, named⟩)
        exact Nat.add_pos_right _ (List.length_pos_of_mem grouped)

variable {a : Arrangement}

/-- Some item is selected exactly when a placeholder of the pool is. -/
theorem selectedPoolCount_pos_iff : 0 < a.selectedPoolCount ↔ a.selectedPool ≠ [] := by
  rw [selectedPoolCount_eq, itemCount_pos_iff]

@[simp]
theorem length_numbered (fields : List Placeholder) : (numbered fields).length = fields.length := by
  have tags_eq := congrArg List.length (tagsOf_numbered fields)
  rwa [List.length_map, List.length_map] at tags_eq

theorem fields_stepOf_ne_nil {title : Json} {fields : List Placeholder} (filled : fields ≠ []) :
    (stepOf title fields).fields ≠ [] := by
  apply List.ne_nil_of_length_pos
  change 0 < (numbered fields).length
  rw [length_numbered]
  exact List.length_pos_of_ne_nil filled

/-- Numbering gives every placeholder its position as its order. -/
theorem numbered_eq_mapIdx (fields : List Placeholder) :
    numbered fields = fields.mapIdx fun index p => { p with order := (index : Int) } := by
  suffices ∀ first, numberedFrom first fields =
      fields.mapIdx fun index p => { p with order := ((first + index : Nat) : Int) } by
    have fromZero := this 0
    simp only [Nat.zero_add] at fromZero
    exact fromZero
  induction fields with
  | nil => exact fun _ => rfl
  | cons p rest ih =>
      intro first
      rw [numberedFrom, ih (first + 1), List.mapIdx_cons]
      simp only [Nat.add_zero, Nat.add_assoc, Nat.add_comm 1]

/-- A step that is not empty is selected when nothing of it is left without the selection. -/
theorem isStepSelected_eq {step : Step} (filled : step.fields ≠ []) :
    a.isStepSelected step = (a.remainder step).fields.isEmpty := by
  have notEmpty : step.fields.isEmpty = false := by simpa using filled
  rw [Bool.eq_iff_iff, isStepSelected, notEmpty, List.isEmpty_iff, remainder,
    List.filter_eq_nil_iff]
  simp [Step.tags]

/-- Moving to the left leaves the steps that are not selected, each without what is selected of
it. -/
theorem steps_moveLeft (filled : ∀ step ∈ a.steps, step.fields ≠ []) :
    a.moveLeft.steps = (a.steps.filter fun step => !a.isStepSelected step).map a.remainder := by
  have kept : (a.steps.filter fun step => !a.isStepSelected step) =
      a.steps.filter fun step => !(a.remainder step).fields.isEmpty := by
    apply List.filter_congr
    intro step stepMem
    rw [isStepSelected_eq (filled step stepMem)]
  rw [kept]
  by_cases chosen : a.selected = []
  · have same : ∀ step ∈ a.steps, a.remainder step = step := fun step _ =>
      remainder_eq_self fun p _ => by simp [isSelected, chosen]
    have all : (a.steps.filter fun step => !(a.remainder step).fields.isEmpty) = a.steps := by
      rw [List.filter_eq_self]
      intro step stepMem
      simpa [same step stepMem] using filled step stepMem
    rw [all, List.map_congr_left same, List.map_id', moveLeft_of_unselected chosen]
  · rw [moveLeft_of_selected chosen]
    exact List.filter_map

theorem length_steps_moveLeft (filled : ∀ step ∈ a.steps, step.fields ≠ []) :
    a.moveLeft.steps.length + a.selectedStepCount = a.steps.length := by
  rw [steps_moveLeft filled, List.length_map, selectedStepCount, Nat.add_comm]
  exact (List.length_eq_length_filter_add a.isStepSelected).symm

/-- After every run of commands some item is selected exactly when moving to the right changes
anything; it then adds one step, takes as many placeholders out of the pool as the step has fields
and clears the selection.  Moving to the left does away with as many steps as are selected; the
others stay in their order, each with its fields that are not selected. -/
theorem counts_predict_moves (placeholders : List Placeholder) (settings : Option Settings)
    (limit : Nat) (commands : List Record.Fields) :
    let a := ((Journal.create placeholders settings limit).dispatchAll commands).arrangement
    ((0 < a.selectedPoolCount ↔ a.moveRight ≠ a) ∧
        (0 < a.selectedPoolCount →
          ∃ step, a.moveRight.steps = a.steps ++ [step] ∧
            a.moveRight.pool.length + step.fields.length = a.pool.length ∧
            a.moveRight.selected = [])) ∧
      a.moveLeft.steps.length + a.selectedStepCount = a.steps.length ∧
      a.moveLeft.steps = (a.steps.filter fun step => !a.isStepSelected step).map a.remainder := by
  intro a
  have arranges : Arranges (create placeholders settings).pool a :=
    arranges_dispatchAll (arranges_create placeholders settings) commands
  have filled : ∀ step ∈ a.steps, step.fields ≠ [] := fun _ stepMem =>
    arranges.fields_ne_nil stepMem
  refine ⟨⟨?_, ?_⟩, length_steps_moveLeft filled, steps_moveLeft filled⟩
  · rw [selectedPoolCount_pos_iff]
    constructor
    · intro chosen same
      have more := congrArg (fun b => b.steps.length) same
      rw [moveRight_of_selected chosen] at more
      simp at more
    · intro changed nothing
      exact changed (moveRight_of_unselected nothing)
  · intro counted
    rw [moveRight_of_selected (selectedPoolCount_pos_iff.mp counted)]
    refine ⟨_, rfl, ?_, rfl⟩
    rw [stepOf, length_numbered, selectedPool, Nat.add_comm,
      ← List.length_eq_length_filter_add]

/-- Placeholders of which two bear one tag. -/
def repeatedTags : List Placeholder :=
  ["A", "B", "C.d", "B", "E", "F"].map fun tag => { fullTagName := tag }

/-- A run that makes two steps and selects all of one, a part of the other, the tag that is left in
the pool and a tag that stands nowhere. -/
def partSelection : List Record.Fields :=
  ["A", "C.d"].map Journal.toggleCommand ++ [Journal.moveRightCommand] ++
    ["E", "F"].map Journal.toggleCommand ++ [Journal.moveRightCommand] ++
    ["E", "F", "A", "B", "G"].map Journal.toggleCommand

theorem counts_predict_moves_partSelection :
    let a := ((Journal.create repeatedTags none 200).dispatchAll partSelection).arrangement
    0 < a.selectedPoolCount ∧
      (∃ step, a.moveRight.steps = a.steps ++ [step] ∧
        a.moveRight.pool.length + step.fields.length = a.pool.length ∧
        a.moveRight.selected = []) ∧
      a.selectedStepCount = 1 ∧ a.moveLeft.steps.map Step.tags = [["C.d"]] := by
  intro a
  have counted : 0 < a.selectedPoolCount := by decide +kernel
  have right := (counts_predict_moves repeatedTags none 200 partSelection).1.2 counted
  exact ⟨counted, right, by decide +kernel, by decide +kernel⟩

/-- Only the last step goes back when all of it is selected and nothing of the others. -/
theorem moveLeft_of_last {steps : List Step} {last : Step} (steps_eq : a.steps = steps ++ [last])
    (lastSelected : ∀ p ∈ last.fields, a.isSelected p.fullTagName = true)
    (unselected : ∀ step ∈ steps, ∀ p ∈ step.fields, a.isSelected p.fullTagName = false)
    (lastFilled : last.fields ≠ []) (filled : ∀ step ∈ steps, step.fields ≠ []) :
    a.moveLeft = { a with pool := a.pool ++ last.fields, steps, selected := [] } := by
  have chosen : a.selected ≠ [] := by
    obtain ⟨p, pMem⟩ := List.exists_mem_of_ne_nil _ lastFilled
    exact List.ne_nil_of_mem (List.contains_iff_mem.mp (lastSelected p pMem))
  have returned_eq : (a.steps.flatMap fun step =>
      step.fields.filter fun p => a.isSelected p.fullTagName) = last.fields := by
    have none_returned : (steps.flatMap fun step =>
        step.fields.filter fun p => a.isSelected p.fullTagName) = [] := by
      simp only [List.flatMap_eq_nil_iff, List.filter_eq_nil_iff]
      intro step stepMem p pMem
      rw [unselected step stepMem p pMem]
      exact Bool.false_ne_true
    rw [steps_eq, List.flatMap_append, none_returned, List.nil_append, List.flatMap_singleton]
    exact List.filter_eq_self.mpr lastSelected
  have kept_eq : ((a.steps.map a.remainder).filter fun step => !step.fields.isEmpty) = steps := by
    have same : steps.map a.remainder = steps := by
      conv_rhs => rw [← List.map_id' steps]
      exact List.map_congr_left fun step stepMem => remainder_eq_self (unselected step stepMem)
    have gone : (a.remainder last).fields = [] := by
      rw [remainder, List.filter_eq_nil_iff]
      intro p pMem
      simp [lastSelected p pMem]
    rw [steps_eq, List.map_append, same, List.filter_append, List.map_singleton,
      List.filter_cons_of_neg (by simp [gone]), List.filter_nil, List.append_nil]
    rw [List.filter_eq_self]
    intro step stepMem
    simpa using filled step stepMem
  rw [moveLeft_of_selected chosen, returned_eq, kept_eq]

/-- Flipping the step that was made last selects it, as nothing is selected after a move. -/
theorem toggleStep_last {steps : List Step} {last : Step} (steps_eq : a.steps = steps ++ [last])
    (unselected : a.selected = []) (filled : last.fields ≠ []) :
    a.toggleStep (a.steps.length - 1) = a.setSelected last.tags true := by
  have found : a.steps[a.steps.length - 1]? = some last := by
    simp [steps_eq]
  have notAll : last.tags.all a.isSelected = false := by
    obtain ⟨p, pMem⟩ := List.exists_mem_of_ne_nil _ filled
    apply List.all_eq_false.mpr
    exact ⟨p.fullTagName, List.mem_map_of_mem pMem, by simp [isSelected, unselected]⟩
  rw [toggleStep_eq_setSelected found, notAll, Bool.not_false]

/-- Flipping the step that was made last by a move selects what was selected before. -/
theorem toggleStep_moveRight (chosen : a.selectedPool ≠ []) :
    a.moveRight.toggleStep (a.moveRight.steps.length - 1) =
      a.moveRight.setSelected (tagsOf a.selectedPool) true := by
  let made := stepOf (.str (Step.numberedTitle (a.steps.length + 1))) a.selectedPool
  have moved := moveRight_of_selected chosen
  have steps_eq : a.moveRight.steps = a.steps ++ [made] := by rw [moved]
  have unselected : a.moveRight.selected = [] := by rw [moved]
  rw [toggleStep_last steps_eq unselected (fields_stepOf_ne_nil chosen), tags_stepOf]

/-- Moving to the right, flipping the new step and moving to the left puts what was selected behind
the rest of the pool, where no step is empty or holds a tag of the pool. -/
theorem moveLeft_toggleStep_moveRight (chosen : a.selectedPool ≠ [])
    (filled : ∀ step ∈ a.steps, step.fields ≠ [])
    (disjoint : ∀ step ∈ a.steps, a.poolTags.Disjoint step.tags) :
    (a.moveRight.toggleStep (a.moveRight.steps.length - 1)).moveLeft =
      { a with
        pool := (a.pool.filter fun p => !a.isSelected p.fullTagName) ++ numbered a.selectedPool
        selected := [] } := by
  let made := stepOf (.str (Step.numberedTitle (a.steps.length + 1))) a.selectedPool
  let b := a.moveRight.setSelected (tagsOf a.selectedPool) true
  have moved := moveRight_of_selected chosen
  have pool_eq : b.pool = a.pool.filter fun p => !a.isSelected p.fullTagName :=
    congrArg Arrangement.pool moved
  have steps_eq : b.steps = a.steps ++ [made] := congrArg Arrangement.steps moved
  have initialPool_eq : b.initialPool = a.initialPool := by
    change a.moveRight.initialPool = a.initialPool
    rw [moved]
  have madeSelected : ∀ p ∈ made.fields, b.isSelected p.fullTagName = true := by
    intro p pMem
    have ofMade : p.fullTagName ∈ made.tags := List.mem_map_of_mem pMem
    rw [tags_stepOf] at ofMade
    rw [isSelected_setSelected, if_pos ofMade]
  -- the new step was made from the pool, so no tag of the other steps is in it
  have othersUnselected : ∀ step ∈ a.steps, ∀ p ∈ step.fields,
      b.isSelected p.fullTagName = false := by
    intro step stepMem p pMem
    have pooled : ∀ tag ∈ tagsOf a.selectedPool, tag ∈ a.poolTags :=
      (List.filter_sublist.map _).subset
    have other : p.fullTagName ∉ tagsOf a.selectedPool := fun tagMem =>
      disjoint step stepMem (pooled _ tagMem) (List.mem_map_of_mem pMem)
    rw [isSelected_setSelected, if_neg other, moved]
    rfl
  rw [toggleStep_moveRight chosen,
    moveLeft_of_last steps_eq madeSelected othersUnselected (fields_stepOf_ne_nil chosen) filled,
    pool_eq, initialPool_eq]
  rfl

/-- After every run of commands that leaves some item selected, moving to the right, flipping the
new step and moving to the left clears the selection and puts what was selected behind the rest of
the pool, numbered in its order, and nothing else has changed. -/
theorem right_and_back (placeholders : List Placeholder) (settings : Option Settings)
    (limit : Nat) (commands : List Record.Fields) :
    let a := ((Journal.create placeholders settings limit).dispatchAll commands).arrangement
    0 < a.selectedPoolCount →
      (a.moveRight.toggleStep (a.moveRight.steps.length - 1)).moveLeft =
        { a with
          pool := (a.pool.filter fun p => !a.isSelected p.fullTagName) ++
            (a.pool.filter fun p => a.isSelected p.fullTagName).mapIdx
              fun index p => { p with order := (index : Int) }
          selected := [] } := by
  intro a counted
  have arranges : Arranges (create placeholders settings).pool a :=
    arranges_dispatchAll (arranges_create placeholders settings) commands
  rw [moveLeft_toggleStep_moveRight (selectedPoolCount_pos_iff.mp counted)
    (fun _ stepMem => arranges.fields_ne_nil stepMem)
    (fun _ stepMem => arranges.poolTags_disjoint stepMem), numbered_eq_mapIdx]
  rfl

theorem right_and_back_partSelection :
    let a := ((Journal.create repeatedTags none 200).dispatchAll partSelection).arrangement
    0 < a.selectedPoolCount ∧
      (a.moveRight.toggleStep (a.moveRight.steps.length - 1)).moveLeft =
        { a with
          pool := [{ fullTagName := "B", order := 0 }, { fullTagName := "B", order := 1 }]
          selected := [] } := by
  intro a
  have counted : 0 < a.selectedPoolCount := by decide +kernel
  have pool_eq : (a.pool.filter fun p => !a.isSelected p.fullTagName) ++
      (a.pool.filter fun p => a.isSelected p.fullTagName).mapIdx
        (fun index p => { p with order := (index : Int) }) =
      [{ fullTagName := "B", order := 0 }, { fullTagName := "B", order := 1 }] := by
    decide +kernel
  exact ⟨counted, pool_eq ▸ right_and_back repeatedTags none 200 partSelection counted⟩

end Arrangement

end Stencil
