import Mathlib.Data.List.InsertIdx
import Stencil.Proofs.Arrangement.Moves

/-!
# Reordering the fields of a step

A field is moved by taking it out of its step and putting it into the shorter list.  It ends at
the place that the command names, whether it comes from before or from behind, the other fields
stay in their order, and all of them are numbered anew.  Moving it back undoes the change but for
the numbers.  A command that addresses no field, no place or another step changes nothing.
-/

namespace Stencil

open Placeholder

/-- A placeholder apart from its order. -/
def Placeholder.unordered (p : Placeholder) : Placeholder :=
  { p with order := 0 }

namespace Arrangement

section Moved

variable {α : Type} {items : List α} {source target : Nat}

theorem moved_eq (sourceLt : source < items.length) (target : Nat) :
    moved items source target = (items.eraseIdx source).insertIdx target items[source] := by
  simp only [moved, List.getElem?_eq_getElem sourceLt]

/-- An element ends at the place to which it is moved. -/
theorem getElem?_moved (sourceLt : source < items.length) (targetLt : target < items.length) :
    (moved items source target)[target]? = items[source]? := by
  have targetLe : target ≤ (items.eraseIdx source).length := by
    rw [List.length_eraseIdx_of_lt sourceLt]
    omega
  rw [moved_eq sourceLt, List.getElem?_insertIdx_self, if_pos targetLe,
    List.getElem?_eq_getElem sourceLt]

/-- The other elements are left as they are without the one that is moved. -/
theorem eraseIdx_moved (sourceLt : source < items.length) (target : Nat) :
    (moved items source target).eraseIdx target = items.eraseIdx source := by
  rw [moved_eq sourceLt, List.eraseIdx_insertIdx_self]

/-- An element that is moved back is where it was. -/
theorem moved_moved (sourceLt : source < items.length) (targetLt : target < items.length) :
    moved (moved items source target) target source = items := by
  have length_eq := (moved_perm sourceLt targetLt).length_eq
  have targetLt' : target < (moved items source target).length := length_eq ▸ targetLt
  have element_eq : (moved items source target)[target] = items[source] := by
    rw [← Option.some_inj, ← List.getElem?_eq_getElem, getElem?_moved sourceLt targetLt,
      List.getElem?_eq_getElem sourceLt]
  rw [moved_eq targetLt', eraseIdx_moved sourceLt, element_eq]
  exact List.insertIdx_eraseIdx_getElem sourceLt

theorem map_moved {β : Type} (view : α → β) (items : List α) (source target : Nat) :
    (moved items source target).map view = moved (items.map view) source target := by
  unfold moved
  rw [List.getElem?_map]
  cases items[source]? with
  | none => rfl
  | some item => simp [List.map_insertIdx, List.eraseIdx_map]

end Moved

/-- Fields of which one was moved: it stands at its new place, the others stay in their order, and
nothing of a field has changed but its order, which is its place. -/
structure IsReordering (before after : List Placeholder) (source target : Nat) : Prop where
  moved : after[target]?.map unordered = before[source]?.map unordered
  others : (after.eraseIdx target).map unordered = (before.eraseIdx source).map unordered
  orders : ∀ (index : Nat) p, after[index]? = some p → p.order = index

theorem map_unordered_numbered (fields : List Placeholder) :
    (numbered fields).map unordered = fields.map unordered :=
  map_numbered (fun _ _ => rfl) fields

theorem isReordering_numbered_moved {fields : List Placeholder} {source target : Nat}
    (sourceLt : source < fields.length) (targetLt : target < fields.length) :
    IsReordering fields (numbered (moved fields source target)) source target where
  moved := by
    rw [← List.getElem?_map, map_unordered_numbered, List.getElem?_map,
      getElem?_moved sourceLt targetLt]
  others := by
    rw [← List.eraseIdx_map, map_unordered_numbered, List.eraseIdx_map,
      eraseIdx_moved sourceLt]
  orders index p found := by
    rw [numbered_eq_mapIdx, List.getElem?_mapIdx] at found
    obtain ⟨_, _, rfl⟩ := Option.map_eq_some_iff.mp found
    rfl

/-- Only the fields count for numbering, not the orders that they had. -/
theorem numbered_congr {first second : List Placeholder}
    (same : first.map unordered = second.map unordered) : numbered first = numbered second := by
  have by_unordered (fields : List Placeholder) : numbered fields =
      (fields.map unordered).mapIdx fun index p => { p with order := (index : Int) } := by
    apply List.ext_getElem?
    intro place
    simp [numbered_eq_mapIdx, Function.comp_def, unordered]
  rw [by_unordered, by_unordered, same]

/-- A field that is moved back is where it was, and the fields are numbered. -/
theorem numbered_moved_moved {fields : List Placeholder} {source target : Nat}
    (sourceLt : source < fields.length) (targetLt : target < fields.length) :
    numbered (moved (numbered (moved fields source target)) target source) = numbered fields := by
  apply numbered_congr
  rw [map_moved, map_unordered_numbered, ← map_moved, moved_moved sourceLt targetLt]

/-- An arrangement in which a step has other fields. -/
def withFields (a : Arrangement) (index : Nat) (step : Step) (fields : List Placeholder) :
    Arrangement :=
  { a with steps := a.steps.set index { step with fields } }

variable {a : Arrangement} {step : Step}

theorem reorder_of_within {index source target : Nat} (found : a.steps[index]? = some step)
    (sourceLt : source < step.fields.length) (targetLt : target < step.fields.length) :
    a.reorder index source target =
      a.withFields index step (numbered (moved step.fields source target)) := by
  obtain ⟨within, step_eq⟩ := List.getElem?_eq_some_iff.mp found
  simp only [reorder, found, sourceLt, targetLt, decide_true, Bool.and_self, if_true, modifyStep,
    withFields]
  rw [List.modify_eq_set_get _ within, List.get_eq_getElem, step_eq]

theorem getElem?_withFields {index : Nat} (found : a.steps[index]? = some step)
    (fields : List Placeholder) :
    (a.withFields index step fields).steps[index]? = some { step with fields } :=
  List.getElem?_set_self (List.getElem?_eq_some_iff.mp found).1

theorem withFields_withFields (a : Arrangement) (index : Nat) (step : Step)
    (first second : List Placeholder) :
    (a.withFields index step first).withFields index { step with fields := first } second =
      a.withFields index step second := by
  simp only [withFields, List.set_set]

/-- The indices of a reordering address a field of a step and a place in the same step. -/
structure Addresses (a : Arrangement) (index source target : Int) (targetStep : Option Int)
    (step : Step) : Prop where
  sameStep : ∀ other ∈ targetStep, other = index
  index_nonneg : 0 ≤ index
  found : a.steps[index.toNat]? = some step
  source_within : 0 ≤ source ∧ source < step.fields.length
  target_within : 0 ≤ target ∧ target < step.fields.length

end Arrangement

namespace Command

open Arrangement

/-- The command that moves a field within a step. -/
def reorderAt (index source target : Int) (targetStep : Option Int) : Command :=
  .reorder (.int index) (.int source) (.int target) (targetStep.elim .null .int)

variable {a : Arrangement} {unfit : CommandError} {n : Int} {size : Nat}
  {change : Nat → Except CommandError Arrangement}

theorem inRange?_int (n : Int) (size : Nat) :
    inRange? (.int n) size = some (decide (0 ≤ n ∧ n < size)) := by
  simp [inRange?]

theorem atIndex_int_of_within (within : 0 ≤ n ∧ n < size) :
    atIndex unfit a (.int n) size change = change n.toNat := by
  simp only [atIndex, inRange?_int, within, and_self, decide_true, position?]

theorem atIndex_int_of_outside (outside : ¬(0 ≤ n ∧ n < size)) :
    atIndex unfit a (.int n) size change = .ok a := by
  simp only [atIndex, inRange?_int, outside, decide_false]

/-- A field is moved when both places are within its step. -/
theorem reorderFields_of_within {i : Nat} {step : Step} {source target : Int}
    (found : a.steps[i]? = some step) (sourceWithin : 0 ≤ source ∧ source < step.fields.length)
    (targetWithin : 0 ≤ target ∧ target < step.fields.length) :
    reorderFields unfit a i (.int source) (.int target) =
      .ok (a.reorder i source.toNat target.toNat) := by
  simp only [reorderFields, found, Option.getD_some, inRange?_int, sourceWithin, targetWithin,
    and_self, decide_true, position?]

theorem reorderFields_of_outside {i : Nat} {step : Step} {source target : Int}
    (found : a.steps[i]? = some step)
    (outside : ¬((0 ≤ source ∧ source < step.fields.length) ∧
      (0 ≤ target ∧ target < step.fields.length))) :
    reorderFields unfit a i (.int source) (.int target) = .ok a := by
  simp only [reorderFields, found, Option.getD_some, inRange?_int]
  by_cases sourceWithin : 0 ≤ source ∧ source < step.fields.length
  · have targetOutside : ¬(0 ≤ target ∧ target < step.fields.length) := fun targetWithin =>
      outside ⟨sourceWithin, targetWithin⟩
    simp only [sourceWithin, targetOutside, and_self, decide_true, decide_false]
  · simp only [sourceWithin, decide_false]

/-- A step to which a field is to be moved counts only when it is given and another one. -/
theorem otherStep_iff {index : Int} {targetStep : Option Int} :
    (targetStep.elim .null Json.int != .null &&
        !(targetStep.elim .null Json.int).agrees (.int index)) = true ↔
      ¬∀ other ∈ targetStep, other = index := by
  cases targetStep with
  | none => simp
  | some other => simp [Json.agrees, Json.number?]

/-- A reordering that addresses a field and a place moves the field there. -/
theorem run_reorderAt_of_addresses {index source target : Int} {targetStep : Option Int}
    {step : Step} (addresses : a.Addresses index source target targetStep step) :
    (reorderAt index source target targetStep).run a =
      .ok (a.withFields index.toNat step
        (numbered (moved step.fields source.toNat target.toNat))) := by
  obtain ⟨sameStep, nonneg, found, sourceWithin, targetWithin⟩ := addresses
  have indexWithin : 0 ≤ index ∧ index < a.steps.length := by
    have within := (List.getElem?_eq_some_iff.mp found).1
    omega
  rw [reorderAt, run, if_neg fun other => otherStep_iff.mp other sameStep,
    atIndex_int_of_within indexWithin, reorderFields_of_within found sourceWithin targetWithin,
    reorder_of_within found (by omega) (by omega)]

/-- Any other reordering leaves everything as it is. -/
theorem run_reorderAt_of_not_addresses {index source target : Int} {targetStep : Option Int}
    (nothing : ¬∃ step, a.Addresses index source target targetStep step) :
    (reorderAt index source target targetStep).run a = .ok a := by
  by_cases sameStep : ∀ other ∈ targetStep, other = index
  · rw [reorderAt, run, if_neg fun other => otherStep_iff.mp other sameStep]
    by_cases indexWithin : 0 ≤ index ∧ index < a.steps.length
    · have found : a.steps[index.toNat]? = some a.steps[index.toNat] :=
        List.getElem?_eq_getElem (by omega)
      rw [atIndex_int_of_within indexWithin, reorderFields_of_outside found]
      rintro ⟨sourceWithin, targetWithin⟩
      exact nothing ⟨_, sameStep, indexWithin.1, found, sourceWithin, targetWithin⟩
    · exact atIndex_int_of_outside indexWithin
  · rw [reorderAt, run, if_pos (otherStep_iff.mpr sameStep)]

end Command

namespace Arrangement

open Command

/-- Moving the field back is addressed in what comes of moving it. -/
theorem Addresses.back {a : Arrangement} {index source target : Int} {targetStep : Option Int}
    {step : Step} (addresses : a.Addresses index source target targetStep step) :
    (a.withFields index.toNat step
        (numbered (moved step.fields source.toNat target.toNat))).Addresses index target source
      targetStep
      { step with fields := numbered (moved step.fields source.toNat target.toNat) } := by
  obtain ⟨sameStep, nonneg, found, sourceWithin, targetWithin⟩ := addresses
  have length_eq : (numbered (moved step.fields source.toNat target.toNat)).length =
      step.fields.length := by
    rw [length_numbered]
    exact (moved_perm (by omega) (by omega)).length_eq
  refine ⟨sameStep, nonneg, getElem?_withFields found _, ?_, ?_⟩
  · rwa [length_eq]
  · rwa [length_eq]

/-- A reordering changes nothing unless it addresses a field and a place of one step.  Then it
changes the fields of this step alone: the field ends at its place, the others stay in their order,
and each has its place as its order and is the same otherwise.  Moving the field back restores the
sequence of tags. -/
theorem reordering_of_run (a : Arrangement) (index source target : Int)
    (targetStep : Option Int) :
    ((¬∃ step, a.Addresses index source target targetStep step) →
        (reorderAt index source target targetStep).run a = .ok a) ∧
      ∀ step, a.Addresses index source target targetStep step →
        ∃ fields, IsReordering step.fields fields source.toNat target.toNat ∧
          (reorderAt index source target targetStep).run a =
            .ok (a.withFields index.toNat step fields) ∧
          ∃ back, tagsOf back = step.tags ∧
            (reorderAt index target source targetStep).run (a.withFields index.toNat step fields) =
              .ok (a.withFields index.toNat step back) := by
  refine ⟨run_reorderAt_of_not_addresses, fun step addresses => ?_⟩
  have sourceLt : source.toNat < step.fields.length := by
    have within := addresses.source_within
    omega
  have targetLt : target.toNat < step.fields.length := by
    have within := addresses.target_within
    omega
  refine ⟨_, isReordering_numbered_moved sourceLt targetLt, run_reorderAt_of_addresses addresses,
    numbered step.fields, tagsOf_numbered step.fields, ?_⟩
  rw [run_reorderAt_of_addresses addresses.back, withFields_withFields,
    numbered_moved_moved sourceLt targetLt]

/-- A step whose fields have orders with gaps, behind another step. -/
def gappedSteps : Arrangement :=
  { steps := [stepOf (.str "One") [{ fullTagName := "A" }],
      { title := .str "Two"
        fields := [{ fullTagName := "B", order := 1 }, { fullTagName := "C.d", order := 4 },
          { fullTagName := "C.e", order := 5 }, { fullTagName := "D", order := 9 }]
        isGroup := true }] }

theorem reordering_of_gappedSteps :
    (∃ step fields, gappedSteps.Addresses 1 0 2 (some 1) step ∧
        IsReordering step.fields fields 0 2 ∧
        (reorderAt 1 0 2 (some 1)).run gappedSteps = .ok (gappedSteps.withFields 1 step fields)) ∧
      ((reorderAt 1 0 2 (some 1)).run gappedSteps).map (·.steps.map Step.tags) =
        .ok [["A"], ["C.d", "C.e", "B", "D"]] ∧
      (¬∃ step, gappedSteps.Addresses 1 0 (-1) none step) ∧
      (reorderAt 1 0 (-1) none).run gappedSteps = .ok gappedSteps := by
  have addresses : gappedSteps.Addresses 1 0 2 (some 1) gappedSteps.steps[1] :=
    ⟨by simp, by decide, rfl, by decide, by decide⟩
  have nothing : ¬∃ step, gappedSteps.Addresses 1 0 (-1) none step := by
    rintro ⟨step, other⟩
    exact absurd other.target_within.1 (by decide)
  obtain ⟨fields, isReordering, moves, _⟩ :=
    (reordering_of_run gappedSteps 1 0 2 (some 1)).2 _ addresses
  exact ⟨⟨_, fields, addresses, isReordering, moves⟩, by decide, nothing,
    (reordering_of_run gappedSteps 1 0 (-1) none).1 nothing⟩

end Arrangement

end Stencil
