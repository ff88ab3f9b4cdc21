import Mathlib.Data.List.TakeWhile
import Stencil.Text.Blank

/-!
# Trimming

A text is its trimmed text with blanks around it, and blanks put around a text make no
difference to what trimming leaves.
-/

namespace Stencil.Text

/-- A text of blanks only. -/
def AllBlank (cs : List Char) : Prop :=
  ∀ c ∈ cs, isBlank c = true

theorem trimStart_blanks_append {blanks : List Char} (blank : AllBlank blanks) (cs : List Char) :
    trimStart (blanks ++ cs) = trimStart cs :=
  List.dropWhile_append_of_pos blank

theorem trimStart_eq_nil {cs : List Char} : trimStart cs = [] ↔ AllBlank cs :=
  List.dropWhile_eq_nil_iff

theorem trimEnd_append_blanks {blanks : List Char} (blank : AllBlank blanks) (cs : List Char) :
    trimEnd (cs ++ blanks) = trimEnd cs := by
  have reversed : AllBlank blanks.reverse := fun c cMem => blank c (List.mem_reverse.mp cMem)
  rw [trimEnd, List.reverse_append, List.dropWhile_append_of_pos reversed, trimEnd]

theorem trim_eq_nil_of_allBlank {cs : List Char} (blank : AllBlank cs) : trim cs = [] := by
  rw [trim, trimStart_eq_nil.mpr blank]
  rfl

/-- Blanks around a text are trimmed away. -/
theorem trim_between_blanks {before after : List Char} (beforeBlank : AllBlank before)
    (afterBlank : AllBlank after) (cs : List Char) : trim (before ++ cs ++ after) = trim cs := by
  rw [List.append_assoc, trim, trimStart_blanks_append beforeBlank]
  by_cases blank : AllBlank cs
  · rw [trimStart_blanks_append blank, trimStart_eq_nil.mpr afterBlank,
      trim_eq_nil_of_allBlank blank]
    rfl
  · have notNil : (trimStart cs).isEmpty = false := by
      simpa using mt trimStart_eq_nil.mp blank
    rw [trimStart, List.dropWhile_append, ← trimStart, notNil]
    exact trimEnd_append_blanks afterBlank _

/-- A text is its trimmed text between blanks. -/
theorem exists_blanks_around_trim (cs : List Char) :
    ∃ before after, AllBlank before ∧ AllBlank after ∧ cs = before ++ trim cs ++ after := by
  refine ⟨cs.takeWhile isBlank, ((trimStart cs).reverse.takeWhile isBlank).reverse, ?_, ?_, ?_⟩
  · exact fun c cMem => List.mem_takeWhile_imp cMem
  · exact fun c cMem => List.mem_takeWhile_imp (List.mem_reverse.mp cMem)
  · rw [List.append_assoc, trim, trimEnd, ← List.reverse_append, List.takeWhile_append_dropWhile,
      List.reverse_reverse, trimStart, List.takeWhile_append_dropWhile]

/-- Nothing is left of a text exactly when it is blank. -/
theorem trim_eq_nil_iff {cs : List Char} : trim cs = [] ↔ AllBlank cs := by
  constructor
  · intro nothing
    obtain ⟨before, after, beforeBlank, afterBlank, split⟩ := exists_blanks_around_trim cs
    rw [nothing, List.append_nil] at split
    rw [split]
    exact List.forall_mem_append.mpr ⟨beforeBlank, afterBlank⟩
  · exact trim_eq_nil_of_allBlank

theorem mem_of_mem_trim {cs : List Char} {c : Char} (cMem : c ∈ trim cs) : c ∈ cs := by
  obtain ⟨before, after, _, _, split⟩ := exists_blanks_around_trim cs
  rw [split]
  exact List.mem_append_left _ (List.mem_append_right _ cMem)

/-- What is no blank is left when a text is trimmed. -/
theorem mem_trim {cs : List Char} {c : Char} (cMem : c ∈ cs) (notBlank : isBlank c = false) :
    c ∈ trim cs := by
  obtain ⟨before, after, beforeBlank, afterBlank, split⟩ := exists_blanks_around_trim cs
  rw [split, List.mem_append, List.mem_append] at cMem
  rcases cMem with (inFront | inside) | behind
  · rw [beforeBlank c inFront] at notBlank
    cases notBlank
  · exact inside
  · rw [afterBlank c behind] at notBlank
    cases notBlank

@[simp]
theorem trim_trim (cs : List Char) : trim (trim cs) = trim cs := by
  obtain ⟨before, after, beforeBlank, afterBlank, split⟩ := exists_blanks_around_trim cs
  rw [← trim_between_blanks beforeBlank afterBlank (trim cs), ← split]

theorem length_trim_le (cs : List Char) : (trim cs).length ≤ cs.length := by
  obtain ⟨before, after, _, _, split⟩ := exists_blanks_around_trim cs
  have lengths := congrArg List.length split
  simp only [List.length_append] at lengths
  omega

/-- A text that trimming leaves alone does not begin with a blank. -/
theorem isBlank_head_eq_false {c : Char} {rest : List Char}
    (trimmed : trim (c :: rest) = c :: rest) : isBlank c = false := by
  by_contra notFalse
  have blank : AllBlank [c] := by
    intro d dMem
    rw [List.mem_singleton.mp dMem]
    simpa using notFalse
  have shorter : trim rest = c :: rest := by
    have nothing : AllBlank [] := by simp [AllBlank]
    rw [← trimmed, ← trim_between_blanks blank nothing rest]
    simp
  have length_le := length_trim_le rest
  rw [shorter, List.length_cons] at length_le
  omega

end Stencil.Text
