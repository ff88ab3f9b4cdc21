import Stencil.Proofs.Arrangement.Steps

/-!
# The orders of a step's fields

Fields are numbered when a step is made and when its fields are put in another order.
Fields that move back into the pool leave gaps and take their numbers with them.  The
numbers along a step are therefore not the positions of its fields, but they always
increase, and from zero on, so that none is less than the position.
-/

namespace Stencil

open Arrangement

namespace Placeholder

/-- The orders of fields increase, and none is negative. -/
structure InOrder (fields : List Placeholder) : Prop where
  increasing : fields.Pairwise fun p q => p.order < q.order
  nonneg : ∀ p ∈ fields, 0 ≤ p.order

/-- Only the orders count. -/
theorem InOrder.of_orders_eq {first second : List Placeholder} (inOrder : InOrder first)
    (orders_eq : second.map (·.order) = first.map (·.order)) : InOrder second where
  increasing := by
    have increasing : (first.map (·.order)).Pairwise (· < ·) :=
      List.pairwise_map.mpr inOrder.increasing
    rw [← orders_eq] at increasing
    exact List.pairwise_map.mp increasing
  nonneg := by
    intro p pMem
    have orderMem : p.order ∈ second.map (·.order) := List.mem_map_of_mem pMem
    rw [orders_eq] at orderMem
    obtain ⟨q, qMem, order_eq⟩ := List.mem_map.mp orderMem
    rw [← order_eq]
    exact inOrder.nonneg q qMem

theorem InOrder.filter {fields : List Placeholder} (inOrder : InOrder fields)
    (chosen : Placeholder → Bool) : InOrder (fields.filter chosen) where
  increasing := inOrder.increasing.filter chosen
  nonneg p pMem := inOrder.nonneg p (List.mem_of_mem_filter pMem)

theorem le_order_of_mem_numberedFrom {first : Nat} {fields : List Placeholder} {p : Placeholder}
    (pMem : p ∈ numberedFrom first fields) : (first : Int) ≤ p.order := by
  induction fields generalizing first with
  | nil => cases pMem
  | cons head rest ih =>
      rcases List.mem_cons.mp pMem with rfl | later
      · exact le_rfl
      · have le := ih later
        omega

theorem inOrder_numbered (fields : List Placeholder) : InOrder (numbered fields) where
  increasing := by
    suffices ∀ first, (numberedFrom first fields).Pairwise fun p q => p.order < q.order from this 0
    induction fields with
    | nil => exact fun _ => List.Pairwise.nil
    | cons head rest ih =>
        intro first
        refine List.pairwise_cons.mpr ⟨?_, ih (first + 1)⟩
        intro p pMem
        have le := le_order_of_mem_numberedFrom pMem
        change (first : Int) < p.order
        omega
  nonneg _ pMem := le_order_of_mem_numberedFrom pMem

/-- Increasing orders leave the positions behind, whatever order they begin with. -/
theorem add_index_le_order {fields : List Placeholder} {first : Int}
    (increasing : fields.Pairwise fun p q => p.order < q.order)
    (atLeast : ∀ p ∈ fields, first ≤ p.order) {index : Nat} {p : Placeholder}
    (found : fields[index]? = some p) : first + index ≤ p.order := by
  induction fields generalizing first index with
  | nil => cases found
  | cons head rest ih =>
      obtain ⟨headLess, restIncreasing⟩ := List.pairwise_cons.mp increasing
      have headAtLeast := atLeast head List.mem_cons_self
      cases index with
      | zero =>
          cases found
          simpa using headAtLeast
      | succ index =>
          have restAtLeast : ∀ q ∈ rest, first + 1 ≤ q.order := by
            intro q qMem
            have less := headLess q qMem
            omega
          have le := ih restIncreasing restAtLeast found
          push_cast
          omega

theorem InOrder.index_le {fields : List Placeholder} (inOrder : InOrder fields) {index : Nat}
    {p : Placeholder} (found : fields[index]? = some p) : (index : Int) ≤ p.order := by
  simpa using add_index_le_order inOrder.increasing inOrder.nonneg found

end Placeholder

open Placeholder

theorem Step.stable_inOrder : Step.Stable fun step => InOrder step.fields where
  made _ fields := inOrder_numbered fields
  renumbered _ _ := inOrder_numbered _
  titled _ inOrder := inOrder
  changed _ keeps inOrder :=
    inOrder.of_orders_eq (map_modify_of_keeps (fun p => (keeps p).2) _ _)

/-- After every run of commands the fields of every step are in order. -/
theorem Journal.inOrder_of_dispatchAll (placeholders : List Placeholder)
    (settings : Option Settings) (limit : Nat) (commands : List Record.Fields) :
    ∀ step ∈ ((create placeholders settings limit).dispatchAll commands).arrangement.steps,
      InOrder step.fields := by
  apply Step.stable_inOrder.of_dispatchAll
  · intro step chosen inOrder
    exact inOrder.filter chosen
  · simp [create]

end Stencil
