import Stencil.Proofs.Outcome
import Stencil.Proofs.Placeholder.Merge
import Stencil.Proofs.Schema.Collect

/-!
# Tags of a compiled form

Compiling parts the fields of a step into those that stand alone and into groups by the
first segment of their tags.  Every field goes one way only, so the tags of a
form are those of the steps it was compiled from, as often as they occur there.
-/

namespace Stencil

open Placeholder

/-- The tags of all fields of a step of a form. -/
def FormStep.tags (step : FormStep) : List String :=
  step.members.map (·.fullTagName)

/-- The tags of all fields of a form. -/
def Schema.tags (schema : Schema) : List String :=
  schema.members.map (·.fullTagName)

namespace FormStep

theorem tags_standaloneFields (context : CompileContext) (fields : List Placeholder) :
    (standaloneFields context fields).map (·.fullTagName) =
      tagsOf (fields.filter fun p => !isMember p) := by
  rw [standaloneFields, List.map_map]
  rfl

theorem tags_groupFields (context : CompileContext) (fields : List Placeholder) (group : String) :
    (groupFields context fields group).map (·.fullTagName) =
      tagsOf ((fields.filter isMember).filter fun p => groupOf p.fullTagName == group) := by
  rw [groupFields, List.map_map]
  rfl

/-- The placeholders of a step in the order in which their fields are compiled: those that stand
alone, then the members of one group after the other. -/
def compiledOrder (fields : List Placeholder) : List Placeholder :=
  (fields.filter fun p => !isMember p) ++
    (groupKeys fields).flatMap fun group =>
      (fields.filter isMember).filter fun p => groupOf p.fullTagName == group

theorem compiledOrder_perm (fields : List Placeholder) : (compiledOrder fields).Perm fields := by
  have members_perm : ((groupKeys fields).flatMap fun group =>
      (fields.filter isMember).filter fun p => groupOf p.fullTagName == group).Perm
        (fields.filter isMember) :=
    flatMap_filter_key_perm (nodup_groupKeys _) fun p pMem => groupOf_mem_groupKeys pMem
  exact (members_perm.append_left _).trans
    (List.perm_append_comm.trans (List.filter_append_perm _ _))

/-- Every placeholder of a step is compiled into one field. -/
theorem members_ofStep (context : CompileContext) (step : Step) :
    (ofStep context step).members =
      (compiledOrder step.fields).map fun p => .ofPlaceholder context (keyOf p) p := by
  simp only [members, ofStep, entries_eq, compiledOrder, List.flatMap_append, List.map_append,
    List.flatMap_map, FormEntry.members, FormGroup.fields_withExamples, groupNamed, groupFields,
    List.map_flatMap]
  congr 1
  exact List.flatMap_singleton' (standaloneFields context step.fields)

/-- A compiled step has the tags of the step, each as often as it occurs there. -/
theorem tags_ofStep_perm (context : CompileContext) (step : Step) :
    (ofStep context step).tags.Perm (tagsOf step.fields) := by
  have tags_eq : (ofStep context step).tags = tagsOf (compiledOrder step.fields) := by
    rw [tags, members_ofStep, List.map_map]
    rfl
  rw [tags_eq]
  exact (compiledOrder_perm step.fields).map _

end FormStep

namespace Schema

/-- The tags of the fields of all steps. -/
def tagsOfSteps (steps : List Step) : List String :=
  steps.flatMap fun step => tagsOf step.fields

theorem tags_ofSteps_perm (context : CompileContext) (documentId : String) (steps : List Step) :
    (ofSteps context documentId steps).tags.Perm (tagsOfSteps steps) := by
  have tags_eq : (ofSteps context documentId steps).tags =
      steps.flatMap fun step => (FormStep.ofStep context step).tags := by
    simp only [tags, members, ofSteps, List.flatMap_map, List.map_flatMap]
    rfl
  rw [tags_eq]
  exact List.Perm.flatMap_left _ fun step _ => FormStep.tags_ofStep_perm context step

theorem tagsOf_genericField (fieldTypes : List FieldType) (generic : List Placeholder) :
    tagsOf (generic.map (genericField fieldTypes)) = tagsOf generic := by
  rw [tagsOf, List.map_map]
  rfl

/-- With generic data the steps have its tags besides their own. -/
theorem tagsOfSteps_withGeneric_perm (steps : List Step) (generic : List Placeholder)
    (fieldTypes : List FieldType) :
    (tagsOfSteps (withGeneric steps generic fieldTypes)).Perm
      (tagsOfSteps steps ++ tagsOf generic) := by
  have generic_tags := tagsOf_genericField fieldTypes generic
  unfold withGeneric
  dsimp only
  split
  · next empty =>
      have nil_eq : generic = [] := by simpa using empty
      simp [nil_eq]
  · cases steps with
    | nil => simp [tagsOfSteps, generic_tags]
    | cons first rest =>
        simp only [tagsOfSteps, List.flatMap_cons, List.map_append, generic_tags, tagsOf]
        rw [List.append_assoc, List.append_assoc]
        exact List.perm_append_comm.append_left _

/-- A form that compiles is that of total functions on its steps. -/
theorem compile_eq_ok {context : CompileContext} {documentId : String} {steps : List Step}
    {schema : Schema} (compiled : compile context documentId steps = .ok schema) :
    schema = ofSteps context documentId steps := by
  obtain ⟨_, _, schema_eq⟩ := bind_eq_ok.mp compiled
  cases schema_eq
  rfl

end Schema

end Stencil
