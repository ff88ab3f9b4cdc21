import Mathlib.Data.List.TakeWhile
import Stencil.Text.Split

/-!
# Splitting what was joined

Pieces that are joined with a separator are got back by splitting at it, when none of them
holds it.  A text is cut at a mark when what stands before does not hold it.
-/

namespace Stencil.Text

variable {α : Type} {test : α → Bool}

/-- Nothing is cut where no element satisfies the test. -/
theorem splitWhere_of_free {xs : List α} (free : ∀ x ∈ xs, test x = false) :
    splitWhere test xs = [xs] := by
  induction xs with
  | nil => rfl
  | cons x rest ih =>
      rcases List.forall_mem_cons.mp free with ⟨here, later⟩
      simp [splitWhere, here, ih later]

theorem exists_splitWhere (test : α → Bool) (xs : List α) :
    ∃ piece pieces, splitWhere test xs = piece :: pieces := by
  cases xs with
  | nil => exact ⟨[], [], rfl⟩
  | cons x rest =>
      rw [splitWhere]
      split
      · exact ⟨_, _, rfl⟩
      · split
        · exact ⟨_, _, rfl⟩
        · exact ⟨_, _, rfl⟩

/-- A list is cut at a separator whatever stands before and behind it. -/
theorem splitWhere_append {separator : α} (parts : test separator = true) (xs rest : List α) :
    splitWhere test (xs ++ separator :: rest) = splitWhere test xs ++ splitWhere test rest := by
  induction xs with
  | nil => simp [splitWhere, parts]
  | cons x xs ih =>
      rw [List.cons_append, splitWhere, splitWhere, ih]
      split
      · rfl
      · obtain ⟨piece, pieces, pieces_eq⟩ := exists_splitWhere test xs
        rw [pieces_eq]
        rfl

/-- The first piece ends at the first element that satisfies the test. -/
theorem splitWhere_append_cons {xs rest : List α} {separator : α}
    (free : ∀ x ∈ xs, test x = false) (parts : test separator = true) :
    splitWhere test (xs ++ separator :: rest) = xs :: splitWhere test rest := by
  rw [splitWhere_append parts, splitWhere_of_free free, List.singleton_append]

theorem join_cons_of_ne_nil {separator piece : List α} {pieces : List (List α)}
    (somePiece : pieces ≠ []) :
    join separator (piece :: pieces) = piece ++ separator ++ join separator pieces := by
  rcases List.exists_cons_of_ne_nil somePiece with ⟨next, others, rfl⟩
  rfl

theorem join_cons_append (separator first piece : List α) (pieces : List (List α)) :
    join separator ((first ++ piece) :: pieces) = first ++ join separator (piece :: pieces) := by
  cases pieces with
  | nil => rfl
  | cons next pieces => simp only [join, List.append_assoc]

/-- What passes a test is the same in joined pieces and in the pieces, when the separator does not
pass it. -/
theorem filter_join {separator : α} (fails : test separator = false) (pieces : List (List α)) :
    (join [separator] pieces).filter test = pieces.flatten.filter test := by
  fun_induction join [separator] pieces with
  | case1 => rfl
  | case2 piece => rw [List.flatten_singleton]
  | case3 piece rest _ ih =>
      have dropped : [separator].filter test = [] := by simp [fails]
      rw [List.flatten_cons, List.filter_append, List.filter_append, List.filter_append, ih,
        dropped, List.append_nil]

/-- Joined pieces consist of what the pieces hold and of the separator. -/
theorem mem_of_mem_join {separator x : α} {pieces : List (List α)}
    (xMem : x ∈ join [separator] pieces) : x = separator ∨ ∃ piece ∈ pieces, x ∈ piece := by
  fun_induction join [separator] pieces with
  | case1 => cases xMem
  | case2 piece => exact .inr ⟨piece, List.mem_cons_self, xMem⟩
  | case3 piece rest _ ih =>
      rw [List.append_assoc, List.mem_append, List.mem_append] at xMem
      rcases xMem with here | between | later
      · exact .inr ⟨piece, List.mem_cons_self, here⟩
      · exact .inl (List.mem_singleton.mp between)
      · rcases ih later with isSeparator | ⟨other, otherMem, inOther⟩
        · exact .inl isSeparator
        · exact .inr ⟨other, List.mem_cons_of_mem piece otherMem, inOther⟩

/-- Joined pieces are got back by splitting. -/
theorem splitWhere_join {separator : α} (parts : test separator = true) {pieces : List (List α)}
    (some_piece : pieces ≠ []) (free : ∀ piece ∈ pieces, ∀ x ∈ piece, test x = false) :
    splitWhere test (join [separator] pieces) = pieces := by
  induction pieces with
  | nil => exact absurd rfl some_piece
  | cons piece rest ih =>
      rcases List.forall_mem_cons.mp free with ⟨here, later⟩
      cases rest with
      | nil => exact splitWhere_of_free here
      | cons next rest =>
          rw [join, List.append_assoc, List.singleton_append, splitWhere_append_cons here parts,
            ih (List.cons_ne_nil next rest) later]
          exact List.cons_ne_nil next rest

/-- The pieces between the marks of a text make up the text again. -/
theorem join_splitWhere (mark : Char) (cs : List Char) :
    join [mark] (splitWhere (· == mark) cs) = cs := by
  induction cs with
  | nil => rfl
  | cons c rest ih =>
      obtain ⟨piece, pieces, pieces_eq⟩ := exists_splitWhere (· == mark) rest
      rw [pieces_eq] at ih
      by_cases isMark : c = mark
      · rw [splitWhere, if_pos (beq_iff_eq.mpr isMark), pieces_eq,
          join_cons_of_ne_nil (List.cons_ne_nil piece pieces), ih, isMark]
        rfl
      · rw [splitWhere, if_neg (mt beq_iff_eq.mp isMark), pieces_eq]
        change join [mark] (([c] ++ piece) :: pieces) = c :: rest
        rw [join_cons_append, ih]
        rfl

/-- A text is cut at a mark whatever stands before and behind it. -/
theorem splitWhere_append_mark (mark : Char) (front behind : List Char) :
    splitWhere (· == mark) (front ++ mark :: behind) =
      splitWhere (· == mark) front ++ splitWhere (· == mark) behind := by
  apply splitWhere_append
  exact beq_self_eq_true mark

/-- A text that holds a mark is parted at its last one. -/
theorem exists_last_mark {mark : Char} {cs : List Char} (held : mark ∈ cs) :
    ∃ front last, cs = front ++ mark :: last ∧ mark ∉ last := by
  -- the last mark is the first one of the reverse
  obtain ⟨last, front, reverse_eq, free⟩ :=
    List.eq_append_cons_of_mem (List.mem_reverse.mpr held)
  refine ⟨front.reverse, last.reverse, ?_, by simpa using free⟩
  rw [← List.reverse_reverse cs, reverse_eq]
  simp

theorem splitWhere_of_notMem {mark : Char} {cs : List Char} (free : mark ∉ cs) :
    splitWhere (· == mark) cs = [cs] :=
  splitWhere_of_free fun _ cMem => beq_eq_false_iff_ne.mpr fun isMark => free (isMark ▸ cMem)

/-- The pieces of a text up to its last mark make up what stands before, and the last one is what
stands behind. -/
theorem parted_at_last_mark (mark : Char) (cs : List Char) :
    ∃ last, (splitWhere (· == mark) cs).getLast? = some last ∧ mark ∉ last ∧
      cs = if mark ∈ cs then join [mark] (splitWhere (· == mark) cs).dropLast ++ mark :: last
        else last := by
  by_cases held : mark ∈ cs
  · obtain ⟨front, last, rfl, free⟩ := exists_last_mark held
    have pieces_eq : splitWhere (· == mark) (front ++ mark :: last) =
        splitWhere (· == mark) front ++ [last] := by
      rw [splitWhere_append_mark, splitWhere_of_notMem free]
    refine ⟨last, ?_, free, ?_⟩
    · rw [pieces_eq, List.getLast?_concat]
    · rw [if_pos held, pieces_eq, List.dropLast_concat, join_splitWhere]
  · exact ⟨cs, by rw [splitWhere_of_notMem held]; rfl, held, by rw [if_neg held]⟩

theorem bne_of_notMem {mark : Char} {cs : List Char} (free : mark ∉ cs) :
    ∀ c ∈ cs, (c != mark) = true :=
  fun _ cMem => bne_iff_ne.mpr fun isMark => free (isMark ▸ cMem)

theorem notMem_takeWhile (mark : Char) (cs : List Char) : mark ∉ cs.takeWhile (· != mark) :=
  fun markMem => by simpa using List.mem_takeWhile_imp markMem

/-- A text is cut in two exactly at its first mark. -/
theorem cutAt_eq_some_iff {mark : Char} {cs before after : List Char} :
    cutAt mark cs = (before, some after) ↔ mark ∉ before ∧ cs = before ++ mark :: after := by
  constructor
  · intro cut
    obtain ⟨rfl, tail_eq⟩ := Prod.mk.inj cut
    have split_eq : cs.takeWhile (· != mark) ++ cs.dropWhile (· != mark) = cs :=
      List.takeWhile_append_dropWhile
    cases rest : cs.dropWhile (· != mark) with
    | nil => simp [rest] at tail_eq
    | cons c behind =>
        have stops := cs.head?_dropWhile_not (· != mark)
        simp only [rest, List.head?_cons, bne_eq_false_iff_eq] at stops
        simp only [rest, List.tail?_cons, Option.some.injEq] at tail_eq
        refine ⟨notMem_takeWhile mark cs, ?_⟩
        rwa [rest, stops, tail_eq, eq_comm] at split_eq
  · rintro ⟨free, rfl⟩
    have passes := bne_of_notMem free
    rw [cutAt, List.takeWhile_append_of_pos passes, List.dropWhile_append_of_pos passes]
    simp

/-- A text is not cut exactly when it holds no mark. -/
theorem cutAt_eq_none_iff {mark : Char} {cs before : List Char} :
    cutAt mark cs = (before, none) ↔ mark ∉ before ∧ cs = before := by
  constructor
  · intro cut
    obtain ⟨rfl, tail_eq⟩ := Prod.mk.inj cut
    have split_eq : cs.takeWhile (· != mark) ++ cs.dropWhile (· != mark) = cs :=
      List.takeWhile_append_dropWhile
    cases rest : cs.dropWhile (· != mark) with
    | nil =>
        refine ⟨notMem_takeWhile mark cs, ?_⟩
        rwa [rest, List.append_nil, eq_comm] at split_eq
    | cons c behind => simp [rest] at tail_eq
  · rintro ⟨free, rfl⟩
    have passes := bne_of_notMem free
    rw [cutAt, List.takeWhile_eq_self_iff.mpr passes, List.dropWhile_eq_nil_iff.mpr passes]
    rfl

end Stencil.Text
