import Mathlib.Data.List.Infix
import Stencil.Proofs.Text.Split

/-!
# Replacing a pattern

Replacing goes from the left.  Where the pattern stands it gives way to the value, and any
other element is kept.  So a text in which the pattern begins nowhere is passed over, and
what follows it is replaced on its own.
-/

namespace Stencil.Text

variable {α : Type} {pattern value : List α}

/-- The pattern begins nowhere in a text that has another one behind it. -/
def BeginsNowhere (pattern xs rest : List α) : Prop :=
  ∀ suffix, suffix <:+ xs → suffix ≠ [] → ¬pattern <+: suffix ++ rest

theorem BeginsNowhere.of_cons {x : α} {xs rest : List α}
    (nowhere : BeginsNowhere pattern (x :: xs) rest) :
    ¬pattern <+: x :: (xs ++ rest) ∧ BeginsNowhere pattern xs rest := by
  constructor
  · exact nowhere (x :: xs) List.suffix_rfl (List.cons_ne_nil x xs)
  · exact fun suffix isSuffix => nowhere suffix (isSuffix.trans (List.suffix_cons x xs))

/-- A text is empty, or the pattern stands at its front, or its first element is kept. -/
theorem pattern_induction {motive : List α → Prop} (filled : pattern ≠ [])
    (nil : motive []) (found : ∀ rest, motive rest → motive (pattern ++ rest))
    (kept : ∀ x rest, ¬pattern <+: x :: rest → motive rest → motive (x :: rest)) :
    ∀ xs, motive xs := by
  intro xs
  induction length_eq : xs.length using Nat.strong_induction_on generalizing xs with
  | _ length ih =>
      subst length_eq
      cases xs with
      | nil => exact nil
      | cons x rest =>
          by_cases stands : pattern <+: x :: rest
          · obtain ⟨behind, text_eq⟩ := stands
            have shorter : behind.length < (x :: rest).length := by
              have := List.length_pos_of_ne_nil filled
              rw [← text_eq, List.length_append]
              omega
            rw [← text_eq]
            exact found behind (ih _ shorter behind rfl)
          · exact kept x rest stands (ih _ (Nat.lt_succ_self _) rest rfl)

theorem prefix_join (separator piece : List α) (pieces : List (List α)) :
    piece <+: join separator (piece :: pieces) := by
  have joined := join_cons_append separator piece [] pieces
  rw [List.append_nil] at joined
  rw [joined]
  exact List.prefix_append piece _

/-- A pattern does not reach over an element that it does not have. -/
theorem prefix_append_iff {xs rest : List α} (boundary : ∀ x ∈ rest.head?, x ∉ pattern) :
    pattern <+: xs ++ rest ↔ pattern <+: xs := by
  constructor
  · intro stands
    rcases List.prefix_or_prefix_of_prefix stands (List.prefix_append xs rest) with
      within | ⟨behind, rfl⟩
    · exact within
    · cases behind with
      | nil => simp
      | cons y behind =>
          rw [List.prefix_append_right_inj] at stands
          obtain ⟨others, rfl⟩ := stands
          exact absurd (by simp) (boundary y rfl)
  · exact fun stands => stands.trans (List.prefix_append xs rest)

variable [BEq α]

/-- How often a pattern begins in a text. -/
def occurrences (pattern : List α) : List α → Nat
  | [] => 0
  | x :: rest => (if pattern.isPrefixOf (x :: rest) then 1 else 0) + occurrences pattern rest

theorem occurrences_cons (x : α) (rest : List α) :
    occurrences pattern (x :: rest) =
      (if pattern.isPrefixOf (x :: rest) then 1 else 0) + occurrences pattern rest :=
  rfl

theorem occurrences_le_append (xs rest : List α) :
    occurrences pattern rest ≤ occurrences pattern (xs ++ rest) := by
  induction xs with
  | nil => exact le_rfl
  | cons x xs ih => exact ih.trans (Nat.le_add_left _ _)

@[simp]
theorem replaceAll_nil : replaceAll pattern value [] = [] :=
  rfl

/-- What is pending is passed over. -/
theorem replaceFrom_length (passed rest : List α) :
    replaceFrom pattern value passed.length (passed ++ rest) = replaceAll pattern value rest := by
  induction passed with
  | nil => rfl
  | cons x passed ih => exact ih

variable [LawfulBEq α]

/-- Where the pattern stands, it gives way to the value. -/
theorem replaceAll_pattern_append (filled : pattern ≠ []) (rest : List α) :
    replaceAll pattern value (pattern ++ rest) = value ++ replaceAll pattern value rest := by
  have stands : pattern.isPrefixOf (pattern ++ rest) = true := by
    rw [List.isPrefixOf_iff_prefix]
    exact List.prefix_append pattern rest
  rcases List.exists_cons_of_ne_nil filled with ⟨x, others, rfl⟩
  rw [List.cons_append] at stands ⊢
  rw [replaceAll, replaceFrom, if_pos stands, List.length_cons, Nat.add_sub_cancel,
    replaceFrom_length]

theorem replaceAll_cons_of_elsewhere {x : α} {rest : List α} (other : ¬pattern <+: x :: rest) :
    replaceAll pattern value (x :: rest) = x :: replaceAll pattern value rest := by
  have stands : ¬pattern.isPrefixOf (x :: rest) = true := by
    rwa [List.isPrefixOf_iff_prefix]
  rw [replaceAll, replaceFrom, if_neg stands, replaceAll]

/-- A text in which the pattern begins nowhere is passed over. -/
theorem replaceAll_append_of_beginsNowhere {xs rest : List α}
    (nowhere : BeginsNowhere pattern xs rest) :
    replaceAll pattern value (xs ++ rest) = xs ++ replaceAll pattern value rest := by
  induction xs with
  | nil => rfl
  | cons x xs ih =>
      rcases nowhere.of_cons with ⟨here, later⟩
      rw [List.cons_append, replaceAll_cons_of_elsewhere here, ih later, List.cons_append]

/-- A text is cut at every occurrence of the pattern, and replacing puts the value between the
pieces instead. -/
theorem exists_pieces (filled : pattern ≠ []) (value xs : List α) :
    ∃ pieces, pieces ≠ [] ∧ (∀ piece ∈ pieces, ¬pattern <:+: piece) ∧
      xs = join pattern pieces ∧ replaceAll pattern value xs = join value pieces := by
  induction xs using pattern_induction filled with
  | nil => exact ⟨[[]], by simp, by simpa using filled, rfl, rfl⟩
  | found rest ih =>
      obtain ⟨pieces, somePiece, free, rest_eq, replaced_eq⟩ := ih
      refine ⟨[] :: pieces, by simp, ?_, ?_, ?_⟩
      · exact List.forall_mem_cons.mpr ⟨by simpa using filled, free⟩
      · rw [join_cons_of_ne_nil somePiece, ← rest_eq, List.nil_append]
      · rw [replaceAll_pattern_append filled, join_cons_of_ne_nil somePiece, replaced_eq,
          List.nil_append]
  | kept x rest other ih =>
      obtain ⟨pieces, somePiece, free, rest_eq, replaced_eq⟩ := ih
      rcases List.exists_cons_of_ne_nil somePiece with ⟨piece, others, rfl⟩
      rcases List.forall_mem_cons.mp free with ⟨pieceFree, othersFree⟩
      refine ⟨(x :: piece) :: others, by simp, ?_, ?_, ?_⟩
      · refine List.forall_mem_cons.mpr ⟨?_, othersFree⟩
        rw [List.infix_cons_iff]
        -- the pattern does not begin at the new character, since it does not in the whole text
        rintro (here | later)
        · apply other
          rw [rest_eq]
          exact here.trans ((List.prefix_cons_inj x).mpr (prefix_join pattern piece others))
        · exact pieceFree later
      · rw [rest_eq]
        exact (join_cons_append pattern [x] piece others).symm
      · rw [replaceAll_cons_of_elsewhere other, replaced_eq]
        exact (join_cons_append value [x] piece others).symm

/-- What a replacement writes comes from the text or from the value. -/
theorem mem_replaceAll (filled : pattern ≠ []) {xs : List α} {x : α}
    (xMem : x ∈ replaceAll pattern value xs) : x ∈ xs ∨ x ∈ value := by
  induction xs using pattern_induction filled with
  | nil => cases xMem
  | found rest ih =>
      rw [replaceAll_pattern_append filled, List.mem_append] at xMem
      rcases xMem with inValue | later
      · exact .inr inValue
      · exact (ih later).imp_left (List.mem_append_right pattern)
  | kept y rest other ih =>
      rw [replaceAll_cons_of_elsewhere other, List.mem_cons] at xMem
      rcases xMem with rfl | later
      · exact .inl List.mem_cons_self
      · exact (ih later).imp_left (List.mem_cons_of_mem y)

/-- Where the pattern occurs, all of the value is written. -/
theorem mem_replaceAll_of_occurs (filled : pattern ≠ []) {xs : List α} (occurs : pattern <:+: xs)
    {x : α} (xMem : x ∈ value) : x ∈ replaceAll pattern value xs := by
  induction xs using pattern_induction filled with
  | nil => exact absurd (List.infix_nil.mp occurs) filled
  | found rest ih =>
      rw [replaceAll_pattern_append filled]
      exact List.mem_append_left _ xMem
  | kept y rest other ih =>
      rw [replaceAll_cons_of_elsewhere other]
      rcases List.infix_cons_iff.mp occurs with here | later
      · exact absurd here other
      · exact List.mem_cons_of_mem y (ih later)

/-- Replacing goes along with renaming the elements apart. -/
theorem replaceAll_map {β : Type} [BEq β] [LawfulBEq β] {f : α → β} (apart : Function.Injective f)
    (filled : pattern ≠ []) (xs : List α) :
    replaceAll (pattern.map f) (value.map f) (xs.map f) = (replaceAll pattern value xs).map f := by
  have filled' : pattern.map f ≠ [] := by simpa using filled
  induction xs using pattern_induction filled with
  | nil => rfl
  | found rest ih =>
      rw [List.map_append, replaceAll_pattern_append filled', ih, replaceAll_pattern_append filled,
        List.map_append]
  | kept y rest other ih =>
      have other' : ¬pattern.map f <+: f y :: rest.map f := by
        rwa [← List.map_cons, List.prefix_map_iff_of_injective apart]
      rw [List.map_cons, replaceAll_cons_of_elsewhere other', ih,
        replaceAll_cons_of_elsewhere other, List.map_cons]

/-- If a text adds no occurrence, the pattern begins nowhere in it. -/
theorem beginsNowhere_of_occurrences_le {xs rest : List α}
    (none : occurrences pattern (xs ++ rest) ≤ occurrences pattern rest) :
    BeginsNowhere pattern xs rest := by
  rintro suffix ⟨front, rfl⟩ filled stands
  rcases List.exists_cons_of_ne_nil filled with ⟨x, others, rfl⟩
  have inFront : occurrences pattern ((x :: others) ++ rest) ≤
      occurrences pattern (front ++ ((x :: others) ++ rest)) := occurrences_le_append front _
  have behind : occurrences pattern rest ≤ occurrences pattern (others ++ rest) :=
    occurrences_le_append others rest
  have here : occurrences pattern ((x :: others) ++ rest) =
      1 + occurrences pattern (others ++ rest) := by
    rw [List.cons_append, occurrences_cons, if_pos]
    rwa [List.isPrefixOf_iff_prefix]
  rw [List.append_assoc] at none
  omega

theorem occurrences_eq_zero_iff (filled : pattern ≠ []) {xs : List α} :
    occurrences pattern xs = 0 ↔ ¬pattern <:+: xs := by
  induction xs with
  | nil => simpa [occurrences] using filled
  | cons x rest ih =>
      rw [occurrences_cons, List.infix_cons_iff, not_or, ← ih, Nat.add_eq_zero_iff,
        ← List.isPrefixOf_iff_prefix]
      simp

/-- Where the pattern does not occur, there is nothing to replace. -/
theorem replaceAll_of_occurrences_eq_zero {xs : List α} (free : occurrences pattern xs = 0) :
    replaceAll pattern value xs = xs := by
  have nowhere : BeginsNowhere pattern xs [] := by
    apply beginsNowhere_of_occurrences_le
    rw [List.append_nil, free]
    exact Nat.zero_le _
  have kept : replaceAll pattern value (xs ++ []) = xs ++ replaceAll pattern value [] :=
    replaceAll_append_of_beginsNowhere nowhere
  simpa using kept

section Boundary

variable {xs rest : List α} (boundary : ∀ x ∈ rest.head?, x ∉ pattern)

include boundary

theorem occurrences_append :
    occurrences pattern (xs ++ rest) = occurrences pattern xs + occurrences pattern rest := by
  induction xs with
  | nil => exact (Nat.zero_add _).symm
  | cons x xs ih =>
      have same : pattern.isPrefixOf (x :: (xs ++ rest)) = pattern.isPrefixOf (x :: xs) := by
        rw [Bool.eq_iff_iff, List.isPrefixOf_iff_prefix, List.isPrefixOf_iff_prefix,
          ← List.cons_append]
        exact prefix_append_iff boundary
      rw [List.cons_append, occurrences_cons, occurrences_cons, ih, same, Nat.add_assoc]

theorem replaceAll_append (filled : pattern ≠ []) :
    replaceAll pattern value (xs ++ rest) =
      replaceAll pattern value xs ++ replaceAll pattern value rest := by
  induction xs using pattern_induction filled with
  | nil => rfl
  | found behind ih =>
      rw [List.append_assoc, replaceAll_pattern_append filled, ih,
        replaceAll_pattern_append filled, List.append_assoc]
  | kept x behind other ih =>
      have kept : ¬pattern <+: x :: behind ++ rest := mt (prefix_append_iff boundary).mp other
      rw [List.cons_append] at kept ⊢
      rw [replaceAll_cons_of_elsewhere kept, ih,
        replaceAll_cons_of_elsewhere other, List.cons_append]

end Boundary

end Stencil.Text
