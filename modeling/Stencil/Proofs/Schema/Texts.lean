import Stencil.Proofs.Arrangement.Conservation
import Stencil.Proofs.Arrangement.Run
import Stencil.Proofs.Placeholder.ValueType
import Stencil.Proofs.Schema.Tags

/-!
# Arrangements that compile

Steps compile exactly when their titles and the value types of their fields are texts.
An operator begins with texts, and a new step has a text as its title.  But a title and
a value type are entered as they come, so a command may enter a value that is no text.
The steps compile all along a run exactly when no command of the run does that.
-/

namespace Stencil

open Placeholder Arrangement

theorem Json.exists_eq_str {value : Json} (isText : value.text? ≠ none) :
    ∃ text, value = .str text := by
  cases value with
  | str text => exact ⟨text, rfl⟩
  | null | bool _ | int _ | real _ | arr _ | obj _ => exact absurd rfl isText

/-- The title of the step and the value types of its fields are texts. -/
structure Step.HoldsTexts (step : Step) : Prop where
  titled : ∃ title, step.title = .str title
  typed : ∀ p ∈ step.fields, p.IsTextTyped

namespace FormStep

theorem checkField_eq_ok_iff {p : Placeholder} : checkField p = .ok () ↔ p.IsTextTyped := by
  unfold checkField IsTextTyped
  cases p.fieldTypeId <;> simp

theorem check_eq_ok_iff {step : Step} : check step = .ok () ↔ step.HoldsTexts := by
  unfold check
  rw [bind_eq_ok]
  constructor
  · rintro ⟨_, fields_pass, title_passes⟩
    refine ⟨?_, fun p pMem => checkField_eq_ok_iff.mp (forM_eq_ok_iff.mp fields_pass p pMem)⟩
    split at title_passes
    · next title title_eq => exact ⟨title, title_eq⟩
    · cases title_passes
  · rintro ⟨⟨title, title_eq⟩, typed⟩
    refine ⟨(), forM_eq_ok_iff.mpr fun p pMem => checkField_eq_ok_iff.mpr (typed p pMem), ?_⟩
    rw [title_eq]
    rfl

end FormStep

namespace Schema

/-- Steps compile exactly when they hold texts. -/
theorem compile_eq_ok_iff {context : CompileContext} {documentId : String} {steps : List Step} :
    (∃ schema, compile context documentId steps = .ok schema) ↔
      ∀ step ∈ steps, step.HoldsTexts := by
  have pass_iff : steps.forM FormStep.check = .ok () ↔ ∀ step ∈ steps, step.HoldsTexts := by
    simp only [forM_eq_ok_iff, FormStep.check_eq_ok_iff]
  rw [← pass_iff]
  constructor
  · rintro ⟨schema, compiled⟩
    obtain ⟨_, pass, _⟩ := bind_eq_ok.mp compiled
    exact pass
  · intro pass
    exact ⟨_, bind_eq_ok.mpr ⟨(), pass, rfl⟩⟩

/-- Steps with texts as titles and value types compile. -/
theorem compile_of_isTextTyped {context : CompileContext} {documentId : String}
    {steps : List Step} (titled : ∀ step ∈ steps, ∃ title, step.title = .str title)
    (typed : ∀ step ∈ steps, ∀ p ∈ step.fields, p.IsTextTyped) :
    compile context documentId steps = .ok (ofSteps context documentId steps) := by
  obtain ⟨schema, compiled⟩ := compile_eq_ok_iff.mpr fun step stepMem =>
    ⟨titled step stepMem, typed step stepMem⟩
  rw [compiled, compile_eq_ok compiled]

end Schema

namespace Arrangement

/-- Titles and value types are texts, also of the placeholders that stand in no step and of
those that come back on a reset. -/
structure HoldsTexts (a : Arrangement) : Prop where
  initialPool : ∀ p ∈ a.initialPool, p.IsTextTyped
  pool : ∀ p ∈ a.pool, p.IsTextTyped
  steps : ∀ step ∈ a.steps, step.HoldsTexts

theorem holdsTexts_create {placeholders : List Placeholder}
    (typed : ∀ p ∈ placeholders, p.IsTextTyped) (settings : Option Settings) :
    (create placeholders settings).HoldsTexts := by
  have start_holds {pool : List Placeholder} (poolTyped : ∀ p ∈ pool, p.IsTextTyped) :
      (start pool).HoldsTexts :=
    ⟨poolTyped, poolTyped, fun _ stepMem => absurd stepMem List.not_mem_nil⟩
  cases settings with
  | none => exact start_holds typed
  | some settings => exact start_holds fun p pMem => typed p (List.mem_of_mem_filter pMem)

namespace HoldsTexts

variable {a b : Arrangement}

theorem of_selects (texts : a.HoldsTexts) (selects : a.Selects b) : b.HoldsTexts := by
  rcases selects with rfl | ⟨tags, shouldSelect, rfl⟩
  · exact texts
  · exact ⟨texts.initialPool, texts.pool, texts.steps⟩

theorem moveRight (texts : a.HoldsTexts) : a.moveRight.HoldsTexts where
  initialPool := by
    rw [initialPool_of_edit .moveRight]
    exact texts.initialPool
  pool := by
    by_cases chosen : a.selectedPool = []
    · rw [moveRight_of_unselected chosen]
      exact texts.pool
    · rw [moveRight_of_selected chosen]
      exact fun p pMem => texts.pool p (List.mem_of_mem_filter pMem)
  steps := by
    intro step stepMem
    rcases mem_steps_moveRight stepMem with same | rfl
    · exact texts.steps step same
    · refine ⟨⟨_, rfl⟩, isTextTyped_of_mem_numbered ?_⟩
      exact fun p pMem => texts.pool p (List.mem_of_mem_filter pMem)

theorem moveLeft (texts : a.HoldsTexts) : a.moveLeft.HoldsTexts where
  initialPool := by
    rw [initialPool_of_edit .moveLeft]
    exact texts.initialPool
  pool := by
    by_cases chosen : a.selected = []
    · rw [moveLeft_of_unselected chosen]
      exact texts.pool
    · rw [moveLeft_of_selected chosen]
      intro p pMem
      rcases List.mem_append.mp pMem with stayed | returned
      · exact texts.pool p stayed
      · obtain ⟨step, stepMem, pMem⟩ := List.mem_flatMap.mp returned
        exact (texts.steps step stepMem).typed p (List.mem_of_mem_filter pMem)
  steps := by
    intro step stepMem
    rcases mem_steps_moveLeft stepMem with same | ⟨old, oldMem, _, rfl⟩
    · exact texts.steps step same
    · have held := texts.steps old oldMem
      exact ⟨held.titled, fun p pMem => held.typed p (List.mem_of_mem_filter pMem)⟩

theorem reorder (texts : a.HoldsTexts) (index source target : Nat) :
    (a.reorder index source target).HoldsTexts where
  initialPool := by
    rw [initialPool_of_edit (.reorder index source target)]
    exact texts.initialPool
  pool := by
    unfold Arrangement.reorder
    split
    · split
      · exact texts.pool
      · exact texts.pool
    · exact texts.pool
  steps := by
    intro step stepMem
    rcases mem_steps_reorder stepMem with same | ⟨old, oldMem, fields, perm, rfl⟩
    · exact texts.steps step same
    · have held := texts.steps old oldMem
      refine ⟨held.titled, isTextTyped_of_mem_numbered ?_⟩
      exact fun p pMem => held.typed p (perm.mem_iff.mp pMem)

theorem modifyStep (texts : a.HoldsTexts) (index : Nat) {change : Step → Step}
    (keeps : ∀ step, step.HoldsTexts → (change step).HoldsTexts) :
    (a.modifyStep index change).HoldsTexts where
  initialPool := texts.initialPool
  pool := texts.pool
  steps := by
    intro step stepMem
    rcases mem_steps_modifyStep stepMem with same | ⟨old, oldMem, rfl⟩
    · exact texts.steps step same
    · exact keeps old (texts.steps old oldMem)

theorem setTitle (texts : a.HoldsTexts) (index : Nat) (title : String) :
    (a.setTitle index (.str title)).HoldsTexts :=
  texts.modifyStep index fun _ held => ⟨⟨title, rfl⟩, held.typed⟩

theorem modifyField (texts : a.HoldsTexts) (tag : Json) {change : Placeholder → Placeholder}
    (keeps : ∀ p, p.IsTextTyped → (change p).IsTextTyped) :
    (a.modifyField tag change).HoldsTexts := by
  rcases a.modifyField_eq tag change with same | ⟨index, position, changed⟩
  · rwa [same]
  · rw [changed]
    refine texts.modifyStep index fun step held => ⟨held.titled, fun p pMem => ?_⟩
    rcases mem_or_eq_of_mem_modify pMem with same | ⟨q, q_eq, rfl⟩
    · exact held.typed p same
    · exact keeps q (held.typed q (List.mem_of_getElem? q_eq))

theorem reset (texts : a.HoldsTexts) : a.reset.HoldsTexts :=
  ⟨texts.initialPool, texts.initialPool, fun _ stepMem => absurd stepMem List.not_mem_nil⟩

end HoldsTexts

end Arrangement

/-- A command that enters a value that is no text as the title of a step or as the value
type of a field.  A value type that is not given counts as the empty text. -/
def Command.EntersNonText (a : Arrangement) : Command → Prop
  | setTitle index title => (addressed? index a.steps.length).isSome ∧ title.text? = none
  | setFieldType tag type => (a.findField tag).isSome ∧ type.isGiven ∧ type.text? = none
  | _ => False

namespace Arrangement

/-- An object of such a command. -/
def EntersNonText (a : Arrangement) (fields : Record.Fields) : Prop :=
  ∃ command, Command.ofFields fields = .ok command ∧ command.EntersNonText a

variable {a b : Arrangement} {fields : Record.Fields}

theorem HoldsTexts.setFieldType (texts : a.HoldsTexts) {tag type : Json}
    (keeps : ¬(Command.setFieldType tag type).EntersNonText a) :
    (a.setFieldType tag type).HoldsTexts := by
  cases found : a.findField tag with
  | none => simpa only [Arrangement.setFieldType, Arrangement.modifyField, found] using texts
  | some place =>
      have assigned : ∃ text, type.orElse (.str "") = .str text := by
        unfold Json.orElse
        split
        · next given =>
            apply Json.exists_eq_str
            intro nonText
            exact keeps ⟨by simp [found], given, nonText⟩
        · exact ⟨"", rfl⟩
      exact texts.modifyField tag fun _ _ => assigned

/-- An accepted command keeps texts unless it enters something else. -/
theorem holdsTexts_of_apply (applied : a.apply fields = .ok b) (keeps : ¬a.EntersNonText fields)
    (texts : a.HoldsTexts) : b.HoldsTexts := by
  obtain ⟨command, read, makes⟩ := makes_of_apply applied
  have entered : ¬command.EntersNonText a := fun enters => keeps ⟨command, read, enters⟩
  cases command with
  | toggleSelect tag asGroup => exact texts.of_selects makes
  | toggleGroup group => exact texts.of_selects makes
  | toggleStep index => exact texts.of_selects makes
  | moveRight =>
      obtain rfl := makes
      exact texts.moveRight
  | moveLeft =>
      obtain rfl := makes
      exact texts.moveLeft
  | reorder _ _ _ _ =>
      rcases makes with rfl | ⟨index, source, target, rfl⟩
      · exact texts
      · exact texts.reorder index source target
  | setTitle index title =>
      rcases makes with rfl | ⟨position, addressed, rfl⟩
      · exact texts
      · obtain ⟨text, rfl⟩ : ∃ text, title = .str text := by
          -- a step is addressed, so anything but a text would have been entered
          apply Json.exists_eq_str
          intro nonText
          exact entered ⟨by simp [addressed], nonText⟩
        exact texts.setTitle position text
  | setFieldType tag type =>
      obtain rfl := makes
      exact texts.setFieldType entered
  | addOption tag _ =>
      rcases makes with rfl | ⟨text, rfl⟩
      · exact texts
      · rcases a.addOption_eq tag text with same | ⟨option, changed⟩
        · rwa [same]
        · rw [changed]
          exact texts.modifyField tag fun _ typed => typed
  | removeOption tag value =>
      obtain rfl := makes
      exact texts.modifyField tag fun _ typed => typed
  | reset =>
      obtain rfl := makes
      exact texts.reset

/-- What is entered and is no text can be found in a step afterwards. -/
theorem exists_of_entersNonText (enters : a.EntersNonText fields) :
    ∃ b, a.apply fields = .ok b ∧ ¬∀ step ∈ b.steps, step.HoldsTexts := by
  obtain ⟨command, read, enters⟩ := enters
  cases command with
  | setTitle index title =>
      obtain ⟨isSome, nonText⟩ := enters
      obtain ⟨position, addressed⟩ := Option.isSome_iff_exists.mp isSome
      refine ⟨a.setTitle position title, ?_, ?_⟩
      · simp only [apply, read, Command.run, Command.atIndex_of_addressed addressed]
      · intro holds
        have step_eq := List.getElem?_eq_getElem (Command.lt_of_addressed addressed)
        have entered := holds _ (mem_modify_of_getElem? step_eq fun step => { step with title })
        obtain ⟨text, rfl⟩ := entered.titled
        cases nonText
  | setFieldType tag type =>
      obtain ⟨isSome, given, nonText⟩ := enters
      refine ⟨a.setFieldType tag type, by simp only [apply, read, Command.run], ?_⟩
      intro holds
      obtain ⟨step, stepMem, p, pMem⟩ := exists_mem_steps_modifyField isSome fun p =>
        { p with fieldTypeId := type.orElse (.str ""), type := none }
      obtain ⟨text, text_eq⟩ := (holds step stepMem).typed _ pMem
      simp only [Json.orElse, given, if_true] at text_eq
      obtain rfl := text_eq
      cases nonText
  | toggleSelect _ _ | toggleGroup _ | toggleStep _ | moveRight | moveLeft | reorder _ _ _ _
  | addOption _ _ | removeOption _ _ | reset => exact enters.elim

end Arrangement

namespace Journal

/-- The steps compile all along a run, with or without a preview, exactly when no command of
the run enters a title or a value type that is no text. -/
theorem compiles_throughout_iff {placeholders : List Placeholder}
    (typed : ∀ p ∈ placeholders, p.IsTextTyped) (settings : Option Settings) (limit : Nat)
    (commands : List Record.Fields) (context : CompileContext) (documentId : String) :
    let reached (done : List Record.Fields) : Arrangement :=
      ((create placeholders settings limit).dispatchAll done).arrangement
    (∀ done, done <+: commands →
        ∃ schema, Schema.compile context documentId (reached done).steps = .ok schema) ↔
      ∀ done fields, done ++ [fields] <+: commands → ¬(reached done).EntersNonText fields := by
  have start : (create placeholders settings limit).arrangement.HoldsTexts :=
    holdsTexts_create typed settings
  simp only [Schema.compile_eq_ok_iff]
  exact throughout_iff HoldsTexts.steps holdsTexts_of_apply (fun _ => exists_of_entersNonText)
    _ start commands

/-- A run that makes a step and gives it a text as its title compiles all along. -/
theorem titled_run_compiles :
    (∀ p ∈ [{ fullTagName := "A" }], IsTextTyped p) ∧
      ∀ done, done <+: [toggleCommand "A", moveRightCommand, setTitleCommand (.int 0) (.str "B")] →
        ∃ schema, Schema.compile {} ""
          ((create [{ fullTagName := "A" }] none 200).dispatchAll done).arrangement.steps =
            .ok schema := by
  have typed : ∀ p ∈ [{ fullTagName := "A" }], IsTextTyped p := by simp [IsTextTyped]
  refine ⟨typed, (compiles_throughout_iff typed none 200 _ {} "").mpr ?_⟩
  rintro done fields isDone ⟨command, read, enters⟩
  -- wherever it is applied, none of the three commands enters a value that is no text
  have fieldsMem := isDone.subset (List.mem_append_right done List.mem_cons_self)
  simp only [List.mem_cons, List.not_mem_nil, or_false] at fieldsMem
  rcases fieldsMem with rfl | rfl | rfl
  · cases read
    exact enters
  · cases read
    exact enters
  · cases read
    cases enters.2

/-- A number that is entered as a title or as a value type is accepted and does not compile. -/
theorem entered_number_does_not_compile :
    let arranged := (create [{ fullTagName := "A" }] none 200).dispatchAll
      [toggleCommand "A", moveRightCommand]
    Schema.compile {} ""
        (arranged.dispatchAll [setTitleCommand (.int 0) (.int 5)]).arrangement.steps =
      .error (.faults [⟨["title"], .notText⟩]) ∧
    Schema.compile {} ""
        (arranged.dispatchAll [setFieldTypeCommand (.str "A") (.int 5)]).arrangement.steps =
      .error (.faults [⟨["field_type_id"], .notText⟩]) := by
  decide +kernel

end Journal

end Stencil
