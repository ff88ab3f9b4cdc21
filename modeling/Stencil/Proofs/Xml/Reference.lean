import Stencil.Proofs.Xml.Reading
import Stencil.Xml.Reference

/-!
# References and what entities may add

A reference is read up to its semicolon, whatever stands behind it.  What entities may still add
to a document decides only whether a value can be expanded, and not what comes out of it.
-/

namespace Stencil.Xml

variable {cs rest : List Char}

theorem readCode_cutsOff {base : Nat} {isDigit : Char → Bool} {reference : Reference}
    (read : Reference.readCode base isDigit cs = some (reference, rest)) :
    CutsOff (Reference.readCode base isDigit) (fun rest => (reference, rest)) cs rest := by
  have isRun := isRun_takeWhile isDigit cs
  have cs_eq : cs = cs.takeWhile isDigit ++ cs.dropWhile isDigit :=
    List.takeWhile_append_dropWhile.symm
  unfold Reference.readCode at read
  generalize cs.takeWhile isDigit = digits at read isRun cs_eq
  generalize cs.dropWhile isDigit = behind at read isRun cs_eq
  dsimp only at read
  split at read
  · cases read
  · next filled =>
      split at read
      · next rest' =>
          obtain ⟨c, code, same⟩ := Option.bind_eq_some_iff.mp read
          cases same
          have marked : IsMarked [';'] := by decide
          refine ⟨digits ++ [';'], marked.append_left digits, by simp [cs_eq], fun rest' => ?_⟩
          have isRun' : IsRun isDigit digits (';' :: rest') := isRun.of_head?_eq rfl
          simp only [Reference.readCode, List.append_assoc, List.singleton_append,
            isRun'.takeWhile_append, isRun'.dropWhile_append, filled, code]
          rfl
      · cases read

theorem Reference.read_decimal (notHex : cs.head? ≠ some 'x') :
    Reference.read ('#' :: cs) = Reference.readCode 10 Text.isAsciiDigit cs := by
  unfold Reference.read
  split
  · next same =>
      simp only [List.cons.injEq, true_and] at same
      simp [same] at notHex
  · next same =>
      simp only [List.cons.injEq, true_and] at same
      rw [same]
  · next notHex' notCode => exact absurd rfl (notCode cs)

theorem Reference.read_named (notCode : cs.head? ≠ some '#') :
    Reference.read cs = (readName cs).bind fun read =>
      match read with
      | (name, ';' :: rest) =>
        some ((match predefined? name with | some c => .char c | none => .entity name), rest)
      | _ => none := by
  unfold Reference.read
  split
  · simp at notCode
  · simp at notCode
  · rfl

/-- A reference is read up to its semicolon. -/
theorem readReference_cutsOff {reference : Reference}
    (read : Reference.read cs = some (reference, rest)) :
    CutsOff Reference.read (fun rest => (reference, rest)) cs rest := by
  by_cases isCode : cs.head? = some '#'
  · obtain ⟨behind, rfl⟩ := List.head?_eq_some_iff.mp isCode
    by_cases isHex : behind.head? = some 'x'
    · obtain ⟨digits, rfl⟩ := List.head?_eq_some_iff.mp isHex
      obtain ⟨taken, marked, rfl, reads⟩ := readCode_cutsOff read
      exact ⟨'#' :: 'x' :: taken, marked.append_left ['#', 'x'], rfl, reads⟩
    · rw [Reference.read_decimal isHex] at read
      obtain ⟨taken, marked, rfl, reads⟩ := readCode_cutsOff read
      refine ⟨'#' :: taken, marked.append_left ['#'], rfl, fun rest' => ?_⟩
      rw [← (alike_append marked rest rest').head_eq] at isHex
      rw [List.cons_append, Reference.read_decimal isHex, reads]
  · rw [Reference.read_named isCode] at read
    obtain ⟨⟨name, middle⟩, named, readEnd⟩ := Option.bind_eq_some_iff.mp read
    split at readEnd
    · next same =>
        cases same
        cases readEnd
        obtain ⟨taken, rfl, reads⟩ := readName_takesOff named
        have marked : IsMarked [';'] := by decide
        refine ⟨taken ++ [';'], marked.append_left taken, by simp, fun rest' => ?_⟩
        have isName : (taken ++ ';' :: rest').head? ≠ some '#' := by
          have heads : (taken ++ ';' :: rest').head? = (taken ++ ';' :: rest).head? :=
            head?_append_congr rfl
          rwa [heads]
        simp only [List.append_assoc, List.singleton_append]
        rw [Reference.read_named isName, reads (';' :: rest') (alike_append marked rest rest')]
        rfl
    · cases readEnd

namespace Entities

/-- Entities may add as much as before, or there are none. -/
def HasRoom (entities : Entities) (allowance allowance' : Nat) : Prop :=
  entities = [] ∨ allowance ≤ allowance'

theorem HasRoom.le_of_lookup {entities : Entities} {allowance allowance' : Nat}
    (room : entities.HasRoom allowance allowance') {name : List Char} {entity : Entity}
    (held : entities.lookup name = some entity) : allowance ≤ allowance' := by
  refine room.resolve_left ?_
  rintro rfl
  cases held

/-- What a value expands to does not depend on what entities may still add, as long as it is
enough. -/
theorem expandValue_hasRoom {use : EntityUse} {fuel : Nat} {entities : Entities}
    {seen value cs : List Char} {allowance left allowance' : Nat}
    (read : expandValue use fuel entities seen allowance cs = some (value, left))
    (room : entities.HasRoom allowance allowance') :
    ∃ left', expandValue use fuel entities seen allowance' cs = some (value, left') ∧
      entities.HasRoom left left' := by
  fun_induction expandValue use fuel entities seen allowance cs
    generalizing value left allowance' with
  -- the cases in which the value is not read
  | case1 | case3 | case8 | case9 => cases read
  | case2 =>
      cases read
      exact ⟨allowance', rfl, room⟩
  | case4 fuel entities seen allowance cs c rest isChar ih =>
      rw [expandValue, isChar]
      exact ih read room
  | case5 fuel entities seen allowance cs name rest isEntity text held tooLong =>
      simp [tooLong] at read
  | case6 fuel entities seen allowance cs name rest isEntity text held fits ihText ihRest =>
      simp only [fits, if_false] at read
      obtain ⟨⟨inner, middle⟩, readText, readRest⟩ := Option.bind_eq_some_iff.mp read
      -- some entity is declared, so there is room for as much as before
      have more := room.le_of_lookup held
      obtain ⟨middle', readText', roomText⟩ :=
        ihText readText (.inr (Nat.sub_le_sub_right more text.length))
      have moreText := roomText.resolve_left (List.cons_ne_nil _ _)
      obtain ⟨left', readRest', roomRest⟩ := ihRest inner middle readRest (.inr moreText)
      refine ⟨left', ?_, roomRest⟩
      have fits' : ¬allowance' < text.length := by omega
      simp only [expandValue, isEntity, held, fits', if_false]
      exact Option.bind_eq_some_iff.mpr ⟨_, readText', readRest'⟩
  | case7 fuel entities seen allowance cs name rest isEntity keeps unknown ih =>
      subst keeps
      obtain ⟨left', readRest', roomRest⟩ := ih read room
      refine ⟨left', ?_, roomRest⟩
      simpa only [expandValue, isEntity, unknown] using readRest'
  | case10 fuel entities seen allowance c rest plain noMarkup ih =>
      obtain ⟨left', readRest', roomRest⟩ := ih read room
      refine ⟨left', ?_, roomRest⟩
      rw [expandValue, if_neg noMarkup, readRest']
      exact plain

theorem attributeValues_hasRoom {α : Type} {use : EntityUse} {entities : Entities}
    {attributes values : List (α × List Char)} {allowance left allowance' : Nat}
    (read : entities.attributeValues use allowance attributes = some (values, left))
    (room : entities.HasRoom allowance allowance') :
    ∃ left', entities.attributeValues use allowance' attributes = some (values, left') ∧
      entities.HasRoom left left' := by
  induction attributes generalizing allowance allowance' values with
  | nil =>
      cases read
      exact ⟨allowance', rfl, room⟩
  | cons written rest ih =>
      obtain ⟨name, text⟩ := written
      obtain ⟨⟨value, middle⟩, readValue, readOthers⟩ := Option.bind_eq_some_iff.mp read
      obtain ⟨⟨others, behind⟩, readRest, same⟩ := Option.bind_eq_some_iff.mp readOthers
      cases same
      obtain ⟨middle', readValue', roomMiddle⟩ := expandValue_hasRoom readValue room
      obtain ⟨left', readRest', roomLeft⟩ := ih readRest roomMiddle
      refine ⟨left', ?_, roomLeft⟩
      simp only [attributeValues, readValue', readRest', Option.bind_eq_bind, Option.bind_some]
      rfl

/-- The steps that the text of an entity may take. -/
def stepsOf : Entity → Nat
  | .internal text => text.length + 1
  | .external | .expanding => 0

/-- The steps that the texts of entities may take, beside those with some names. -/
def stepsBeside (names : List (List Char)) : Entities → Nat
  | [] => 0
  | (name, entity) :: rest =>
    (if name ∈ names then 0 else stepsOf entity) + stepsBeside (name :: names) rest

theorem stepsBeside_congr {names names' : List (List Char)}
    (same : ∀ name, name ∈ names ↔ name ∈ names') (entities : Entities) :
    entities.stepsBeside names = entities.stepsBeside names' := by
  induction entities generalizing names names' with
  | nil => rfl
  | cons entry rest ih =>
      obtain ⟨own, entity⟩ := entry
      have sameBehind : ∀ name, name ∈ own :: names ↔ name ∈ own :: names' := fun name => by
        rw [List.mem_cons, List.mem_cons, same]
      rw [stepsBeside, stepsBeside, ih sameBehind]
      simp only [same]

/-- The text of an entity takes its part of all steps. -/
theorem stepsBeside_of_lookup {names : List (List Char)} {entities : Entities}
    {name text : List Char} (held : entities.lookup name = some (.internal text))
    (free : name ∉ names) :
    entities.stepsBeside (name :: names) + (text.length + 1) = entities.stepsBeside names := by
  induction entities generalizing names with
  | nil => cases held
  | cons entry rest ih =>
      obtain ⟨own, entity⟩ := entry
      rw [List.lookup_cons] at held
      split at held
      · next found =>
          cases held
          obtain rfl := beq_iff_eq.mp found
          have same : ∀ other, other ∈ name :: name :: names ↔ other ∈ name :: names := by simp
          rw [stepsBeside, stepsBeside, if_pos List.mem_cons_self, if_neg free, stepsOf,
            stepsBeside_congr same]
          omega
      · next other =>
          have differs : own ≠ name := fun same => by simp [same] at other
          have swapped : ∀ other, other ∈ own :: name :: names ↔ other ∈ name :: own :: names := by
            simp only [List.mem_cons]
            tauto
          have step := ih held (List.not_mem_cons_of_ne_of_not_mem differs.symm free)
          rw [stepsBeside, stepsBeside, stepsBeside_congr swapped]
          simp only [List.mem_cons, differs, false_or]
          omega

theorem stepsBeside_whileExpanding (entities : Entities) (name : List Char) :
    (entities.whileExpanding name).stepsBeside [] = entities.stepsBeside [name] := by
  rw [whileExpanding, stepsBeside, if_neg List.not_mem_nil, stepsOf, Nat.zero_add]

theorem add_stepsBeside_le (entities : Entities) (names : List (List Char)) (steps : Nat) :
    steps + entities.stepsBeside names ≤ entities.foldl
      (fun steps (_, entity) =>
        match entity with
        | .internal text => steps + text.length + 1
        | _ => steps + 1) steps := by
  induction entities generalizing names steps with
  | nil => exact le_rfl
  | cons entry rest ih =>
      obtain ⟨name, entity⟩ := entry
      rw [List.foldl_cons, stepsBeside]
      refine le_trans ?_ (ih (name :: names) _)
      cases entity <;> split <;> simp only [stepsOf] <;> omega

/-- There are steps for a text and for the texts of all entities. -/
theorem lt_stepsFor (entities : Entities) (text : List Char) :
    text.length + entities.stepsBeside [] < entities.stepsFor text := by
  have steps_le := add_stepsBeside_le entities [] (text.length + 1)
  rw [Nat.add_right_comm] at steps_le
  exact steps_le

/-- A longer text has more steps. -/
theorem stepsFor_le_stepsFor (entities : Entities) {text text' : List Char}
    (shorter : text.length ≤ text'.length) : entities.stepsFor text ≤ entities.stepsFor text' := by
  have start : text.length + 1 ≤ text'.length + 1 := Nat.succ_le_succ shorter
  unfold stepsFor
  generalize text.length + 1 = steps at start ⊢
  generalize text'.length + 1 = steps' at start ⊢
  induction entities generalizing steps steps' with
  | nil => exact start
  | cons entry rest ih =>
      obtain ⟨name, entity⟩ := entry
      rw [List.foldl_cons, List.foldl_cons]
      refine ih _ _ ?_
      cases entity <;> simp only <;> omega

end Entities

end Stencil.Xml
