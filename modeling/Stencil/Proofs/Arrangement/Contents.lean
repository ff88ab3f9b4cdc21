import Mathlib.Algebra.BigOperators.Group.Multiset.Basic
import Mathlib.Data.List.Perm.Basic
import Stencil.Arrangement.Change

/-!
# The contents of an arrangement

An arrangement is a set of containers, the pool and the steps.  Its contents say what
lies in each of them without regard to order and to what an operator may edit.
On contents only the two moves and the reset do anything: they distribute the
placeholders anew, and every other change leaves the contents as they are.
-/

namespace Stencil

/-- What a placeholder keeps however it is arranged: all but its order, its options and
its value type. -/
structure Placeholder.Lasting where
  fullTagName : String
  placeholderTypeId : String
  name : String
  required : Bool
  value : Json
  tagName : String
  parentTagName : String
  placeholderText : String
  deriving DecidableEq

namespace Placeholder

/-- The lasting part of a placeholder. -/
def lasting (p : Placeholder) : Lasting :=
  { fullTagName := p.fullTagName
    placeholderTypeId := p.placeholderTypeId
    name := p.name
    required := p.required
    value := p.value
    tagName := p.tagName
    parentTagName := p.parentTagName
    placeholderText := p.placeholderText }

/-- What lies in a container. -/
def contentOf (fields : List Placeholder) : Multiset Lasting :=
  ↑(fields.map lasting)

@[simp]
theorem contentOf_nil : contentOf [] = 0 :=
  rfl

@[simp]
theorem contentOf_append (first second : List Placeholder) :
    contentOf (first ++ second) = contentOf first + contentOf second := by
  simp [contentOf]

@[simp]
theorem contentOf_eq_zero {fields : List Placeholder} : contentOf fields = 0 ↔ fields = [] := by
  simp [contentOf]

theorem contentOf_eq_of_perm {first second : List Placeholder} (perm : first.Perm second) :
    contentOf first = contentOf second :=
  Multiset.coe_eq_coe.mpr (perm.map lasting)

theorem contentOf_flatMap {α : Type} (items : List α) (fieldsOf : α → List Placeholder) :
    contentOf (items.flatMap fieldsOf) = (items.map fun item => contentOf (fieldsOf item)).sum := by
  induction items with
  | nil => rfl
  | cons item rest ih => simp [ih]

/-- A choice by tags is the same before and after the editable parts are left out. -/
theorem contentOf_filter (chosen : String → Bool) (fields : List Placeholder) :
    contentOf (fields.filter fun p => chosen p.fullTagName) =
      (contentOf fields).filter fun p => chosen p.fullTagName := by
  simp [contentOf, List.filter_map, Function.comp_def, lasting]

theorem contentOf_filter_not (chosen : String → Bool) (fields : List Placeholder) :
    contentOf (fields.filter fun p => !chosen p.fullTagName) =
      (contentOf fields).filter fun p => ¬chosen p.fullTagName := by
  simpa using contentOf_filter (fun tag => !chosen tag) fields

/-- Changing a field in its editable parts does not change what lies in a container. -/
theorem contentOf_modify {change : Placeholder → Placeholder}
    (keeps : ∀ p, (change p).lasting = p.lasting) (fields : List Placeholder) (position : Nat) :
    contentOf (fields.modify position change) = contentOf fields := by
  induction fields generalizing position with
  | nil => simp
  | cons p rest ih =>
      cases position with
      | zero => simp [contentOf, keeps]
      | succ position => simpa [contentOf] using ih position

end Placeholder

namespace Arrangement

open Placeholder

/-- Numbering keeps what does not depend on the order. -/
theorem map_numbered {α : Type} {view : Placeholder → α}
    (keeps : ∀ p order, view { p with order } = view p) (fields : List Placeholder) :
    (numbered fields).map view = fields.map view := by
  suffices ∀ first, (numberedFrom first fields).map view = fields.map view from this 0
  induction fields with
  | nil => exact fun _ => rfl
  | cons p rest ih =>
      intro first
      rw [numberedFrom, List.map_cons, List.map_cons, keeps, ih]

@[simp]
theorem contentOf_numbered (fields : List Placeholder) :
    contentOf (numbered fields) = contentOf fields :=
  congrArg Multiset.ofList (map_numbered (fun _ _ => rfl) fields)

/-- Moving an element within a list neither adds nor loses anything. -/
theorem moved_perm {α : Type} {items : List α} {source target : Nat}
    (sourceLt : source < items.length) (targetLt : target < items.length) :
    (moved items source target).Perm items := by
  have targetLe : target ≤ (items.eraseIdx source).length := by
    rw [List.length_eraseIdx_of_lt sourceLt]
    omega
  simp only [moved, List.getElem?_eq_getElem sourceLt]
  exact (List.perm_insertIdx _ _ targetLe).trans (List.getElem_cons_eraseIdx_perm sourceLt)

/-- The step that is made of placeholders. -/
def stepOf (title : Json) (fields : List Placeholder) : Step :=
  { title, fields := numbered fields, isGroup := fields.any fun p => isDotted p.fullTagName }

/-- What is left of a step when its selected fields are taken away. -/
def remainder (a : Arrangement) (step : Step) : Step :=
  { step with fields := step.fields.filter fun p => !a.isSelected p.fullTagName }

section Moves

variable {a : Arrangement}

theorem moveRight_of_unselected (nothing : a.selectedPool = []) : a.moveRight = a := by
  simp [moveRight, nothing]

theorem moveRight_of_selected (chosen : a.selectedPool ≠ []) :
    a.moveRight =
      { a with
        pool := a.pool.filter fun p => !a.isSelected p.fullTagName
        steps := a.steps ++
          [stepOf (.str (Step.numberedTitle (a.steps.length + 1))) a.selectedPool]
        selected := [] } := by
  have notEmpty : a.selectedPool.isEmpty = false := by simpa using chosen
  simp only [moveRight, notEmpty, Bool.false_eq_true, if_false]
  rfl

theorem moveLeft_of_unselected (nothing : a.selected = []) : a.moveLeft = a := by
  simp [moveLeft, nothing]

theorem moveLeft_of_selected (chosen : a.selected ≠ []) :
    a.moveLeft =
      { a with
        pool := a.pool ++ a.steps.flatMap fun step =>
          step.fields.filter fun p => a.isSelected p.fullTagName
        steps := (a.steps.map a.remainder).filter fun step => !step.fields.isEmpty
        selected := [] } := by
  have notEmpty : a.selected.isEmpty = false := by simpa using chosen
  simp only [moveLeft, notEmpty, Bool.false_eq_true, if_false]
  rfl

end Moves

/-- What lies in the pool and in each step. -/
structure Contents where
  pool : Multiset Lasting
  steps : List (Multiset Lasting)

/-- The contents of an arrangement. -/
def contents (a : Arrangement) : Contents :=
  { pool := contentOf a.pool
    steps := a.steps.map fun step => contentOf step.fields }

namespace Contents

/-- The contents when all that is chosen in the pool goes into a step of its own. -/
def moveRight (chosen : String → Bool) (c : Contents) : Contents :=
  { pool := c.pool.filter fun p => ¬chosen p.fullTagName
    steps := c.steps ++ [c.pool.filter fun p => chosen p.fullTagName] }

/-- The contents when all that is chosen in the steps goes into the pool. -/
def moveLeft (chosen : String → Bool) (c : Contents) : Contents :=
  { pool := c.pool + (c.steps.map fun step => step.filter fun p => chosen p.fullTagName).sum
    steps := (c.steps.map fun step => step.filter fun p => ¬chosen p.fullTagName).filter (· ≠ 0) }

end Contents

@[simp]
theorem contents_setSelected (a : Arrangement) (tags : List String) (shouldSelect : Bool) :
    (a.setSelected tags shouldSelect).contents = a.contents :=
  rfl

theorem contents_moveRight {a : Arrangement} (chosen : a.selectedPool ≠ []) :
    a.moveRight.contents = a.contents.moveRight a.isSelected := by
  rw [moveRight_of_selected chosen]
  simp only [contents, Contents.moveRight, stepOf, List.map_append, List.map_cons, List.map_nil,
    contentOf_numbered]
  rw [selectedPool, contentOf_filter, contentOf_filter_not]

theorem contents_moveLeft {a : Arrangement} (chosen : a.selected ≠ []) :
    a.moveLeft.contents = a.contents.moveLeft a.isSelected := by
  have filled (step : Step) :
      (!step.fields.isEmpty) = decide (contentOf step.fields ≠ 0) := by
    cases fields_eq : step.fields <;> simp [contentOf]
  rw [moveLeft_of_selected chosen]
  simp only [contents, Contents.moveLeft, contentOf_append, contentOf_flatMap, contentOf_filter,
    filled, List.map_map]
  congr 1
  simp only [remainder, List.filter_map, List.map_map, Function.comp_def, contentOf_filter_not]

/-- A change of a step that keeps what lies in it keeps the contents. -/
theorem contents_modifyStep {a : Arrangement} {index : Nat} {change : Step → Step}
    (keeps : ∀ step, a.steps[index]? = some step →
      contentOf (change step).fields = contentOf step.fields) :
    (a.modifyStep index change).contents = a.contents := by
  simp only [contents, modifyStep, Contents.mk.injEq, true_and]
  generalize a.steps = steps at keeps
  induction steps generalizing index with
  | nil => simp
  | cons step rest ih =>
      cases index with
      | zero => simpa using keeps step rfl
      | succ index => simpa using ih keeps

theorem contents_reorder (a : Arrangement) (index source target : Nat) :
    (a.reorder index source target).contents = a.contents := by
  unfold reorder
  split
  · next step found =>
      split
      · next within =>
          simp only [Bool.and_eq_true, decide_eq_true_eq] at within
          apply contents_modifyStep
          intro other other_found
          obtain rfl : step = other := Option.some.inj (found.symm.trans other_found)
          rw [contentOf_numbered]
          exact contentOf_eq_of_perm (moved_perm within.1 within.2)
      · rfl
  · rfl

/-- A change of a field in its editable parts keeps the contents. -/
theorem contents_modifyField {a : Arrangement} {tag : Json} {change : Placeholder → Placeholder}
    (keeps : ∀ p, (change p).lasting = p.lasting) :
    (a.modifyField tag change).contents = a.contents := by
  unfold modifyField
  split
  · exact contents_modifyStep fun step _ => contentOf_modify keeps step.fields _
  · rfl

theorem contents_setTitle (a : Arrangement) (index : Nat) (title : Json) :
    (a.setTitle index title).contents = a.contents := by
  apply contents_modifyStep
  intro step _
  rfl

theorem contents_setFieldType (a : Arrangement) (tag type : Json) :
    (a.setFieldType tag type).contents = a.contents := by
  apply contents_modifyField
  intro p
  rfl

theorem contents_addOption (a : Arrangement) (tag : Json) (text : String) :
    (a.addOption tag text).contents = a.contents := by
  unfold addOption
  split
  · rfl
  · apply contents_modifyField
    intro p
    rfl

theorem contents_removeOption (a : Arrangement) (tag value : Json) :
    (a.removeOption tag value).contents = a.contents := by
  apply contents_modifyField
  intro p
  rfl

end Arrangement

end Stencil
