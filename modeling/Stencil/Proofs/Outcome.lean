/-!
# Computations that may fail

A computation that runs two parts after each other succeeds when both do, and one that
goes through a list succeeds when it does at every item.  Otherwise it fails as the first of
them that does.
-/

namespace Stencil

variable {ε α β : Type}

theorem bind_eq_ok {first : Except ε α} {second : α → Except ε β} {result : β} :
    (first >>= second) = .ok result ↔ ∃ a, first = .ok a ∧ second a = .ok result := by
  cases first with
  | error error =>
      constructor
      · intro succeeds
        cases succeeds
      · rintro ⟨a, succeeds, _⟩
        cases succeeds
  | ok a =>
      constructor
      · intro succeeds
        exact ⟨a, rfl, succeeds⟩
      · rintro ⟨b, b_eq, succeeds⟩
        cases b_eq
        exact succeeds

theorem bind_eq_error {first : Except ε α} {second : α → Except ε β} {error : ε} :
    (first >>= second) = .error error ↔
      first = .error error ∨ ∃ a, first = .ok a ∧ second a = .error error := by
  cases first with
  | error other =>
      constructor
      · intro fails
        cases fails
        exact .inl rfl
      · rintro (fails | ⟨a, succeeds, _⟩)
        · cases fails
          rfl
        · cases succeeds
  | ok a =>
      constructor
      · intro fails
        exact .inr ⟨a, rfl, fails⟩
      · rintro (fails | ⟨b, b_eq, fails⟩)
        · cases fails
        · cases b_eq
          exact fails

theorem mapError_eq_ok_iff {ε' : Type} {outcome : Except ε α} {f : ε → ε'} {result : α} :
    outcome.mapError f = .ok result ↔ outcome = .ok result := by
  cases outcome with
  | error error =>
      constructor
      · intro succeeds
        cases succeeds
      · intro succeeds
        cases succeeds
  | ok a =>
      constructor
      · intro succeeds
        cases succeeds
        rfl
      · intro succeeds
        cases succeeds
        rfl

theorem mapError_eq_error_iff {ε' : Type} {outcome : Except ε α} {f : ε → ε'} {error : ε'} :
    outcome.mapError f = .error error ↔ ∃ cause, outcome = .error cause ∧ f cause = error := by
  cases outcome with
  | error cause =>
      constructor
      · intro fails
        cases fails
        exact ⟨cause, rfl, rfl⟩
      · rintro ⟨other, other_eq, rfl⟩
        cases other_eq
        rfl
  | ok a =>
      constructor
      · intro fails
        cases fails
      · rintro ⟨other, impossible, _⟩
        cases impossible

/-- What a list of computations yields comes from its items. -/
theorem exists_of_mem_mapM {f : α → Except ε β} {items : List α} {results : List β}
    (succeeds : items.mapM f = .ok results) {b : β} (bMem : b ∈ results) :
    ∃ a ∈ items, f a = .ok b := by
  induction items generalizing results with
  | nil =>
      cases succeeds
      cases bMem
  | cons a rest ih =>
      rw [List.mapM_cons] at succeeds
      obtain ⟨first, first_eq, succeeds⟩ := bind_eq_ok.mp succeeds
      obtain ⟨others, others_eq, succeeds⟩ := bind_eq_ok.mp succeeds
      cases succeeds
      rcases List.mem_cons.mp bMem with rfl | later
      · exact ⟨a, List.mem_cons_self, first_eq⟩
      · obtain ⟨other, otherMem, other_eq⟩ := ih others_eq later
        exact ⟨other, List.mem_cons_of_mem _ otherMem, other_eq⟩

/-- The first item of a list at which something fails, and its failure. -/
def FirstFails (fails : α → ε → Prop) (items : List α) (error : ε) : Prop :=
  ∃ before item after, items = before ++ item :: after ∧
    (∀ earlier ∈ before, ∀ error, ¬fails earlier error) ∧ fails item error

theorem firstFails_nil {fails : α → ε → Prop} {error : ε} : ¬FirstFails fails [] error := by
  rintro ⟨before, item, after, items_eq, _⟩
  exact List.append_ne_nil_of_right_ne_nil before (List.cons_ne_nil item after) items_eq.symm

theorem firstFails_cons_iff {fails : α → ε → Prop} {item : α} {rest : List α} {error : ε} :
    FirstFails fails (item :: rest) error ↔
      fails item error ∨ (∀ error, ¬fails item error) ∧ FirstFails fails rest error := by
  constructor
  · rintro ⟨before, failing, after, items_eq, passed, fails_eq⟩
    cases before with
    | nil =>
        cases items_eq
        exact .inl fails_eq
    | cons first before =>
        cases items_eq
        obtain ⟨firstPasses, passed⟩ := List.forall_mem_cons.mp passed
        exact .inr ⟨firstPasses, before, failing, after, rfl, passed, fails_eq⟩
  · rintro (fails_eq | ⟨passes, before, failing, after, rfl, passed, fails_eq⟩)
    · exact ⟨[], item, rest, rfl, by simp, fails_eq⟩
    · exact ⟨item :: before, failing, after, rfl, List.forall_mem_cons.mpr ⟨passes, passed⟩,
        fails_eq⟩

/-- Something fails first exactly when it fails somewhere. -/
theorem exists_firstFails_iff {fails : α → ε → Prop} {items : List α} :
    (∃ error, FirstFails fails items error) ↔ ∃ item ∈ items, ∃ error, fails item error := by
  constructor
  · rintro ⟨error, before, item, after, rfl, _, fails_eq⟩
    exact ⟨item, by simp, error, fails_eq⟩
  · rintro ⟨item, itemMem, failing⟩
    induction items with
    | nil => cases itemMem
    | cons first rest ih =>
        by_cases here : ∃ error, fails first error
        · obtain ⟨error, here⟩ := here
          exact ⟨error, firstFails_cons_iff.mpr (.inl here)⟩
        · have later : item ∈ rest := by
            rcases List.mem_cons.mp itemMem with rfl | later
            · exact absurd failing here
            · exact later
          obtain ⟨error, later⟩ := ih later
          exact ⟨error, firstFails_cons_iff.mpr (.inr ⟨not_exists.mp here, later⟩)⟩

/-- What fails first does so under other names for the failures as well. -/
theorem firstFails_map_iff {ε' : Type} {fails : α → ε → Prop} {name : ε → ε'} {items : List α}
    {error : ε'} :
    FirstFails (fun item error => ∃ cause, fails item cause ∧ name cause = error) items error ↔
      ∃ cause, FirstFails fails items cause ∧ name cause = error := by
  constructor
  · rintro ⟨before, item, after, items_eq, passed, cause, fails_eq, named⟩
    refine ⟨cause, ⟨before, item, after, items_eq, ?_, fails_eq⟩, named⟩
    exact fun earlier earlierMem other fails => passed earlier earlierMem _ ⟨other, fails, rfl⟩
  · rintro ⟨cause, ⟨before, item, after, items_eq, passed, fails_eq⟩, named⟩
    refine ⟨before, item, after, items_eq, ?_, cause, fails_eq, named⟩
    rintro earlier earlierMem _ ⟨other, fails, rfl⟩
    exact passed earlier earlierMem other fails

/-- A list of computations fails as the first of its items that does. -/
theorem mapM_eq_error_iff {f : α → Except ε β} {items : List α} {error : ε} :
    items.mapM f = .error error ↔
      FirstFails (fun item error => f item = .error error) items error := by
  induction items with
  | nil =>
      constructor
      · intro fails
        cases fails
      · exact fun first => absurd first firstFails_nil
  | cons item rest ih =>
      rw [List.mapM_cons, firstFails_cons_iff]
      cases item_eq : f item with
      | error other => simp [bind, Except.bind]
      | ok b =>
          simp only [reduceCtorEq, not_false_eq_true, implies_true, false_or, true_and, ← ih]
          change (rest.mapM f >>= fun others => Except.ok (b :: others)) = _ ↔ _
          simp [bind_eq_error]

/-- A list of computations that can fail in one way only fails in this way when some item
does. -/
theorem mapM_eq_error_of_mem {f : α → Except ε β} {items : List α} {item : α} {error : ε}
    (itemMem : item ∈ items) (fails : f item = .error error)
    (only : ∀ other ∈ items, ∀ otherError, f other = .error otherError → otherError = error) :
    items.mapM f = .error error := by
  have somewhere : ∃ item ∈ items, ∃ error, f item = .error error :=
    ⟨item, itemMem, error, fails⟩
  obtain ⟨found, first⟩ := exists_firstFails_iff.mpr somewhere
  have mapM_eq : items.mapM f = .error found := mapM_eq_error_iff.mpr first
  obtain ⟨_, failing, _, rfl, _, fails_eq⟩ := first
  rwa [only failing (by simp) found fails_eq] at mapM_eq

/-- A list of computations that all succeed yields their results. -/
theorem mapM_eq_ok_map {f : α → Except ε β} {g : α → β} {items : List α}
    (succeeds : ∀ item ∈ items, f item = .ok (g item)) : items.mapM f = .ok (items.map g) := by
  induction items with
  | nil => rfl
  | cons item rest ih =>
      obtain ⟨first, others⟩ := List.forall_mem_cons.mp succeeds
      rw [List.mapM_cons, first, ih others]
      rfl

/-- A list of checks passes exactly when every item does. -/
theorem forM_eq_ok_iff {check : α → Except ε Unit} {items : List α} :
    items.forM check = .ok () ↔ ∀ item ∈ items, check item = .ok () := by
  induction items with
  | nil => exact ⟨fun _ _ itemMem => absurd itemMem List.not_mem_nil, fun _ => rfl⟩
  | cons item rest ih =>
      change (check item >>= fun _ => rest.forM check) = .ok () ↔ _
      rw [bind_eq_ok, List.forall_mem_cons]
      constructor
      · rintro ⟨_, first, others⟩
        exact ⟨first, ih.mp others⟩
      · rintro ⟨first, others⟩
        exact ⟨(), first, ih.mpr others⟩

end Stencil
