import Stencil.Proofs.Arrangement.Order
import Stencil.Proofs.Arrangement.Run
import Stencil.Proofs.Schema.Structure

/-!
# Orders in a compiled form

A form parts the fields of a step into those that stand alone and those of its groups,
each with the order it has in the step.  Where the orders increase along the step
they increase along each of these parts, so a client that receives a part in any order
and sorts it gets back the arrangement of the operator.
-/

namespace Stencil

open Placeholder

/-- Fields as a client shows them: sorted by their orders. -/
def FormField.sorted (fields : List FormField) : List FormField :=
  fields.mergeSort fun first second => first.order ≤ second.order

/-- Fields with increasing orders are restored by sorting. -/
theorem FormField.sorted_eq_of_perm {fields received : List FormField}
    (increasing : fields.Pairwise fun first second => first.order < second.order)
    (perm : received.Perm fields) : sorted received = fields := by
  let le (first second : FormField) : Bool := decide (first.order ≤ second.order)
  have received_sorted : (sorted received).Pairwise fun first second => le first second := by
    apply List.pairwise_mergeSort
    · intro a b c ab bc
      simp only [le, decide_eq_true_eq] at ab bc ⊢
      omega
    · intro a b
      simp only [le, Bool.or_eq_true, decide_eq_true_eq]
      omega
  have fields_sorted : fields.Pairwise fun first second => le first second :=
    increasing.imp fun less => decide_eq_true less.le
  have sorted_perm : (sorted received).Perm fields := (List.mergeSort_perm _ _).trans perm
  refine List.Perm.eq_of_pairwise ?_ received_sorted fields_sorted sorted_perm
  intro a b aMem bMem ab ba
  simp only [le, decide_eq_true_eq] at ab ba
  have orders_nodup : (fields.map (·.order)).Nodup :=
    List.pairwise_map.mpr (increasing.imp ne_of_lt)
  exact List.inj_on_of_nodup_map orders_nodup (sorted_perm.mem_iff.mp aMem) bMem
    (le_antisymm ab ba)

namespace FormStep

/-- A compiled step has the orders of a step: they increase along its parts, and sorting a
part by them gives the fields of the step that belong to it, as they are arranged. -/
structure Follows (compiled : FormStep) (step : Step) : Prop where
  standalone_increasing : compiled.standalone.Pairwise fun p q => p.order < q.order
  group_increasing : ∀ group ∈ compiled.groups, group.fields.Pairwise fun p q => p.order < q.order
  standalone_sorted : ∀ received : List FormField, received.Perm compiled.standalone →
    (FormField.sorted received).map (·.fullTagName) =
      tagsOf (step.fields.filter fun p => !isMember p)
  group_sorted : ∀ group ∈ compiled.groups, ∀ received : List FormField,
    received.Perm group.fields → (FormField.sorted received).map (·.fullTagName) =
      tagsOf ((step.fields.filter isMember).filter fun p => groupOf p.fullTagName == group.key)

theorem follows_ofStep (context : CompileContext) {step : Step} (inOrder : InOrder step.fields) :
    (ofStep context step).Follows step := by
  have standalone_increasing : (standaloneFields context step.fields).Pairwise
      fun p q => p.order < q.order := List.pairwise_map.mpr (inOrder.filter _).increasing
  have group_increasing (group : String) : (groupFields context step.fields group).Pairwise
      fun p q => p.order < q.order :=
    List.pairwise_map.mpr ((inOrder.filter _).filter _).increasing
  refine ⟨?_, ?_, ?_, ?_⟩
  · rw [standalone_ofStep]
    exact standalone_increasing
  · intro group groupMem
    rw [groups_ofStep] at groupMem
    obtain ⟨name, _, rfl⟩ := List.mem_map.mp groupMem
    rw [FormGroup.fields_withExamples]
    exact group_increasing name
  · intro received perm
    rw [standalone_ofStep] at perm
    rw [FormField.sorted_eq_of_perm standalone_increasing perm]
    exact tags_standaloneFields context step.fields
  · intro group groupMem received perm
    rw [groups_ofStep] at groupMem
    obtain ⟨name, _, rfl⟩ := List.mem_map.mp groupMem
    rw [FormGroup.fields_withExamples] at perm
    rw [FormField.sorted_eq_of_perm (group_increasing name) perm, FormGroup.key_withExamples]
    exact tags_groupFields context step.fields name

end FormStep

namespace Journal

/-- After every run of commands the orders increase along each step and are no less than
the positions, and the form of the steps follows them. -/
theorem orders_of_run (placeholders : List Placeholder) (settings : Option Settings) (limit : Nat)
    (commands : List Record.Fields) :
    let a := ((create placeholders settings limit).dispatchAll commands).arrangement
    (∀ step ∈ a.steps, step.fields.Pairwise (fun p q => p.order < q.order) ∧
      ∀ (index : Nat) p, step.fields[index]? = some p → (index : Int) ≤ p.order) ∧
      ∀ context documentId schema, Schema.compile context documentId a.steps = .ok schema →
        List.Forall₂ FormStep.Follows schema.data a.steps := by
  intro a
  have inOrder : ∀ step ∈ a.steps, InOrder step.fields :=
    inOrder_of_dispatchAll placeholders settings limit commands
  constructor
  · intro step stepMem
    exact ⟨(inOrder step stepMem).increasing, fun _ _ found => (inOrder step stepMem).index_le found⟩
  · intro context documentId schema compiled
    obtain rfl := Schema.compile_eq_ok compiled
    refine List.forall₂_map_left_iff.mpr (List.forall₂_same.mpr ?_)
    intro step stepMem
    exact FormStep.follows_ofStep context (inOrder step stepMem)

/-- A run that leaves the order of its step with gaps. -/
def gappedRun : List Record.Fields :=
  ["A", "B.x", "C", "B.y", "D"].map toggleCommand ++
    [moveRightCommand, toggleCommand "C", moveLeftCommand]

/-- Where a field in the middle has moved back, the others keep their orders and the form
follows them. -/
theorem orders_of_gappedRun :
    let a := ((create (["A", "B.x", "C", "B.y", "D"].map fun tag => { fullTagName := tag })
      none 200).dispatchAll gappedRun).arrangement
    a.steps.map (fun step => step.fields.map (·.order)) = [[0, 1, 3, 4]] ∧
      Schema.compile {} "" a.steps = .ok (Schema.ofSteps {} "" a.steps) ∧
      List.Forall₂ FormStep.Follows (Schema.ofSteps {} "" a.steps).data a.steps := by
  intro a
  have compiled : Schema.compile {} "" a.steps = .ok (Schema.ofSteps {} "" a.steps) := by
    decide +kernel
  exact ⟨by decide +kernel, compiled, (orders_of_run _ none 200 gappedRun).2 {} "" _ compiled⟩

end Journal

end Stencil
