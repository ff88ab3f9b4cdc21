import Stencil.Proofs.Arrangement.Contents
import Stencil.Proofs.Arrangement.Edit
import Stencil.Proofs.Placeholder.Merge

/-!
# The steps of a changed arrangement

A step of a changed arrangement was there before, has just been made from the pool, or
is an old one that has lost fields, has been put in another order, has a new title or
one changed field.  What all of these keep for a single step holds of every step
after every run of commands.
-/

namespace Stencil

open Placeholder

/-- An element of a list that was changed at one place was there or is the change of the
one at that place. -/
theorem mem_or_eq_of_mem_modify {α : Type} {items : List α} {index : Nat} {change : α → α}
    {item : α} (itemMem : item ∈ items.modify index change) :
    item ∈ items ∨ ∃ old, items[index]? = some old ∧ item = change old := by
  obtain ⟨place, item_eq⟩ := List.mem_iff_getElem?.mp itemMem
  rw [List.getElem?_modify] at item_eq
  obtain ⟨old, old_eq, rfl⟩ := Option.map_eq_some_iff.mp item_eq
  by_cases same : index = place
  · rw [if_pos same]
    exact .inr ⟨old, same ▸ old_eq, rfl⟩
  · rw [if_neg same]
    exact .inl (List.mem_of_getElem? old_eq)

/-- The changed element is in the changed list. -/
theorem mem_modify_of_getElem? {α : Type} {items : List α} {index : Nat} {item : α}
    (item_eq : items[index]? = some item) (change : α → α) :
    change item ∈ items.modify index change := by
  apply List.mem_of_getElem? (i := index)
  rw [List.getElem?_modify_eq, item_eq]
  rfl

/-- What a change keeps of an element, a change at one place keeps of the list. -/
theorem map_modify_of_keeps {α β : Type} {change : α → α} {view : α → β}
    (keeps : ∀ item, view (change item) = view item) (items : List α) (index : Nat) :
    (items.modify index change).map view = items.map view := by
  induction items generalizing index with
  | nil => simp
  | cons item rest ih =>
      cases index with
      | zero => simp [keeps]
      | succ index => simpa using ih index

namespace Arrangement

/-- Numbering changes the orders of placeholders only. -/
theorem exists_of_mem_numbered {fields : List Placeholder} {p : Placeholder}
    (pMem : p ∈ numbered fields) : ∃ q ∈ fields, ∃ order, p = { q with order } := by
  suffices ∀ first, p ∈ numberedFrom first fields → ∃ q ∈ fields, ∃ order, p = { q with order } from
    this 0 pMem
  clear pMem
  induction fields with
  | nil => simp [numberedFrom]
  | cons head rest ih =>
      intro first pMem
      rcases List.mem_cons.mp pMem with rfl | later
      · exact ⟨head, List.mem_cons_self, _, rfl⟩
      · obtain ⟨q, qMem, order, p_eq⟩ := ih (first + 1) later
        exact ⟨q, List.mem_cons_of_mem _ qMem, order, p_eq⟩

@[simp]
theorem tagsOf_numbered (fields : List Placeholder) : tagsOf (numbered fields) = tagsOf fields :=
  map_numbered (fun _ _ => rfl) fields

@[simp]
theorem tags_stepOf (title : Json) (fields : List Placeholder) :
    (stepOf title fields).tags = tagsOf fields :=
  tagsOf_numbered fields

/-- An operator begins without steps. -/
@[simp]
theorem steps_create (placeholders : List Placeholder) (settings : Option Settings) :
    (create placeholders settings).steps = [] := by
  cases settings <;> rfl

variable {a b : Arrangement} {step : Step}

theorem mem_steps_moveRight (stepMem : step ∈ a.moveRight.steps) :
    step ∈ a.steps ∨
      step = stepOf (.str (Step.numberedTitle (a.steps.length + 1))) a.selectedPool := by
  by_cases chosen : a.selectedPool = []
  · rw [moveRight_of_unselected chosen] at stepMem
    exact .inl stepMem
  · rw [moveRight_of_selected chosen] at stepMem
    rcases List.mem_append.mp stepMem with old | new
    · exact .inl old
    · exact .inr (List.mem_singleton.mp new)

theorem mem_steps_moveLeft (stepMem : step ∈ a.moveLeft.steps) :
    step ∈ a.steps ∨ ∃ old ∈ a.steps, (a.remainder old).fields ≠ [] ∧ step = a.remainder old := by
  by_cases chosen : a.selected = []
  · rw [moveLeft_of_unselected chosen] at stepMem
    exact .inl stepMem
  · rw [moveLeft_of_selected chosen] at stepMem
    obtain ⟨keptMem, filled⟩ := List.mem_filter.mp stepMem
    obtain ⟨old, oldMem, rfl⟩ := List.mem_map.mp keptMem
    exact .inr ⟨old, oldMem, by simpa using filled, rfl⟩

/-- Nothing is taken away from a step of which nothing is selected. -/
theorem remainder_eq_self (unselected : ∀ p ∈ step.fields, a.isSelected p.fullTagName = false) :
    a.remainder step = step := by
  have kept : (step.fields.filter fun p => !a.isSelected p.fullTagName) = step.fields := by
    rw [List.filter_eq_self]
    intro p pMem
    rw [unselected p pMem, Bool.not_false]
  rw [remainder, kept]

theorem remainder_mem_steps_moveLeft (stepMem : step ∈ a.steps)
    (left : (a.remainder step).fields ≠ []) : a.remainder step ∈ a.moveLeft.steps := by
  by_cases chosen : a.selected = []
  · rw [moveLeft_of_unselected chosen, remainder_eq_self fun p _ => by simp [isSelected, chosen]]
    exact stepMem
  · rw [moveLeft_of_selected chosen]
    refine List.mem_filter.mpr ⟨List.mem_map_of_mem stepMem, ?_⟩
    simpa using left

theorem mem_steps_reorder {index source target : Nat}
    (stepMem : step ∈ (a.reorder index source target).steps) :
    step ∈ a.steps ∨ ∃ old ∈ a.steps, ∃ fields, fields.Perm old.fields ∧
      step = { old with fields := numbered fields } := by
  unfold reorder at stepMem
  split at stepMem
  · next old found =>
      split at stepMem
      · next within =>
          simp only [Bool.and_eq_true, decide_eq_true_eq] at within
          rcases mem_or_eq_of_mem_modify stepMem with same | ⟨other, other_eq, rfl⟩
          · exact .inl same
          · obtain rfl : old = other := Option.some.inj (found.symm.trans other_eq)
            exact .inr ⟨old, List.mem_of_getElem? found, _, moved_perm within.1 within.2, rfl⟩
      · exact .inl stepMem
  · exact .inl stepMem

theorem mem_steps_modifyStep {index : Nat} {change : Step → Step}
    (stepMem : step ∈ (a.modifyStep index change).steps) :
    step ∈ a.steps ∨ ∃ old ∈ a.steps, step = change old := by
  rcases mem_or_eq_of_mem_modify stepMem with same | ⟨old, old_eq, rfl⟩
  · exact .inl same
  · exact .inr ⟨old, List.mem_of_getElem? old_eq, rfl⟩

/-- The change of a field is the change of its step, if there is such a field. -/
theorem modifyField_eq (a : Arrangement) (tag : Json) (change : Placeholder → Placeholder) :
    a.modifyField tag change = a ∨ ∃ index position, a.modifyField tag change =
      a.modifyStep index fun step => { step with fields := step.fields.modify position change } := by
  unfold modifyField
  split
  · exact .inr ⟨_, _, rfl⟩
  · exact .inl rfl

theorem mem_steps_modifyField {tag : Json} {change : Placeholder → Placeholder}
    (stepMem : step ∈ (a.modifyField tag change).steps) :
    step ∈ a.steps ∨ ∃ old ∈ a.steps, ∃ position,
      step = { old with fields := old.fields.modify position change } := by
  rcases a.modifyField_eq tag change with same | ⟨index, position, changed⟩
  · rw [same] at stepMem
    exact .inl stepMem
  · rw [changed] at stepMem
    rcases mem_steps_modifyStep stepMem with same | ⟨old, oldMem, rfl⟩
    · exact .inl same
    · exact .inr ⟨old, oldMem, position, rfl⟩

/-- A field with a tag is found at a position of a step. -/
theorem exists_of_findFieldFrom {tag : Json} {first index position : Nat} {steps : List Step}
    (found : findFieldFrom tag first steps = some (index, position)) :
    ∃ place step p, index = first + place ∧ steps[place]? = some step ∧
      step.fields[position]? = some p := by
  induction steps generalizing first with
  | nil => cases found
  | cons step rest ih =>
      unfold findFieldFrom at found
      split at found
      · next position' position_eq =>
          cases found
          obtain ⟨within, _⟩ := List.findIdx?_eq_some_iff_getElem.mp position_eq
          exact ⟨0, step, _, rfl, rfl, List.getElem?_eq_getElem within⟩
      · obtain ⟨place, later, p, index_eq, later_eq, p_eq⟩ := ih found
        exact ⟨place + 1, later, p, by omega, later_eq, p_eq⟩

/-- The change of a field that is found is in a step afterwards. -/
theorem exists_mem_steps_modifyField {tag : Json} (isSome : (a.findField tag).isSome)
    (change : Placeholder → Placeholder) :
    ∃ step ∈ (a.modifyField tag change).steps, ∃ p, change p ∈ step.fields := by
  obtain ⟨⟨index, position⟩, found⟩ := Option.isSome_iff_exists.mp isSome
  obtain ⟨place, step, p, index_eq, step_eq, p_eq⟩ := exists_of_findFieldFrom found
  obtain rfl : index = place := by omega
  simp only [modifyField, found]
  exact ⟨_, mem_modify_of_getElem? step_eq _, p, mem_modify_of_getElem? p_eq change⟩

/-- A blank option is none, and any other changes a field. -/
theorem addOption_eq (a : Arrangement) (tag : Json) (text : String) :
    a.addOption tag text = a ∨ ∃ option, a.addOption tag text =
      a.modifyField tag fun p => { p with options := p.options ++ [option] } := by
  unfold addOption
  split
  · exact .inl rfl
  · exact .inr ⟨_, rfl⟩

end Arrangement

open Arrangement

/-- A property of steps that every step has when it is made, and that no change of a step
destroys except, perhaps, that it loses fields. -/
structure Step.Stable (holds : Step → Prop) : Prop where
  made : ∀ title fields, holds (stepOf title fields)
  renumbered : ∀ {step : Step} {fields}, fields.Perm step.fields → holds step →
    holds { step with fields := numbered fields }
  titled : ∀ {step : Step} title, holds step → holds { step with title }
  changed : ∀ {step : Step} {change : Placeholder → Placeholder} position,
    (∀ p, (change p).fullTagName = p.fullTagName ∧ (change p).order = p.order) →
    holds step → holds { step with fields := step.fields.modify position change }

namespace Step.Stable

variable {holds : Step → Prop} {a b : Arrangement}

theorem modifyField (stable : Stable holds) {tag : Json} {change : Placeholder → Placeholder}
    (keeps : ∀ p, (change p).fullTagName = p.fullTagName ∧ (change p).order = p.order)
    (steps : ∀ step ∈ a.steps, holds step) :
    ∀ step ∈ (a.modifyField tag change).steps, holds step := by
  intro step stepMem
  rcases mem_steps_modifyField stepMem with same | ⟨old, oldMem, position, rfl⟩
  · exact steps step same
  · exact stable.changed position keeps (steps old oldMem)

/-- A stable property passes on to all steps of what a command makes, if it survives the
loss of fields where the command moves fields back into the pool. -/
theorem of_makes (stable : Stable holds) {command : Command} (makes : command.Makes a b)
    (left : command = .moveLeft → ∀ step ∈ a.moveLeft.steps, holds step)
    (steps : ∀ step ∈ a.steps, holds step) : ∀ step ∈ b.steps, holds step := by
  have selects (selected : a.Selects b) : ∀ step ∈ b.steps, holds step := by
    rcases selected with rfl | ⟨tags, shouldSelect, rfl⟩
    · exact steps
    · exact steps
  cases command with
  | toggleSelect tag asGroup => exact selects makes
  | toggleGroup group => exact selects makes
  | toggleStep index => exact selects makes
  | moveRight =>
      obtain rfl := makes
      intro step stepMem
      rcases mem_steps_moveRight stepMem with same | rfl
      · exact steps step same
      · exact stable.made _ _
  | moveLeft =>
      obtain rfl := makes
      exact left rfl
  | reorder index source target targetStep =>
      rcases makes with rfl | ⟨_, _, _, rfl⟩
      · exact steps
      · intro step stepMem
        rcases mem_steps_reorder stepMem with same | ⟨old, oldMem, fields, perm, rfl⟩
        · exact steps step same
        · exact stable.renumbered perm (steps old oldMem)
  | setTitle index title =>
      rcases makes with rfl | ⟨_, _, rfl⟩
      · exact steps
      · intro step stepMem
        rcases mem_steps_modifyStep stepMem with same | ⟨old, oldMem, rfl⟩
        · exact steps step same
        · exact stable.titled title (steps old oldMem)
  | setFieldType tag type =>
      obtain rfl := makes
      exact stable.modifyField (fun _ => ⟨rfl, rfl⟩) steps
  | addOption tag _ =>
      rcases makes with rfl | ⟨text, rfl⟩
      · exact steps
      · rcases a.addOption_eq tag text with same | ⟨option, changed⟩
        · rwa [same]
        · rw [changed]
          exact stable.modifyField (fun _ => ⟨rfl, rfl⟩) steps
  | removeOption tag value =>
      obtain rfl := makes
      exact stable.modifyField (fun _ => ⟨rfl, rfl⟩) steps
  | reset =>
      obtain rfl := makes
      intro step stepMem
      cases stepMem

/-- A stable property that survives the loss of fields holds of every step after every run
of commands. -/
theorem of_dispatchAll (stable : Stable holds)
    (reduced : ∀ {step : Step} chosen, holds step →
      holds { step with fields := step.fields.filter chosen })
    {journal : Journal} (start : ∀ step ∈ journal.arrangement.steps, holds step)
    (commands : List Record.Fields) :
    ∀ step ∈ (journal.dispatchAll commands).arrangement.steps, holds step := by
  let everywhere (a : Arrangement) : Prop := ∀ step ∈ a.steps, holds step
  suffices everywhere (journal.dispatchAll commands).arrangement from this
  refine journal.dispatchAll_induction ?_ start commands
  intro a b fields applied steps
  obtain ⟨command, _, makes⟩ := makes_of_apply applied
  refine stable.of_makes makes (fun _ step stepMem => ?_) steps
  rcases mem_steps_moveLeft stepMem with same | ⟨old, oldMem, _, rfl⟩
  · exact steps step same
  · exact reduced _ (steps old oldMem)

end Step.Stable

end Stencil
