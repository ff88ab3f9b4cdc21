import Stencil.Arrangement.Change
import Stencil.Proofs.Text.Escape
import Stencil.Proofs.Text.Trim

/-!
# Options of a field

An option is added to the first field with a tag and taken out of it again.  The field is described
by its place, which is what stands around it, so that everything else is seen to stay as it was.
What is added is the text that was written, with its escapes read once.
-/

namespace Stencil.Arrangement

/-- The place of a field: the steps around its step and the fields around it in its step. -/
structure FieldPlace where
  stepsBefore : List Step
  title : Json
  isGroup : Bool
  fieldsBefore : List Placeholder
  fieldsBehind : List Placeholder
  stepsBehind : List Step

/-- The step of a place with a field in it. -/
def FieldPlace.step (place : FieldPlace) (p : Placeholder) : Step where
  title := place.title
  fields := place.fieldsBefore ++ p :: place.fieldsBehind
  isGroup := place.isGroup

/-- The steps of an arrangement with a field at a place. -/
def FieldPlace.steps (place : FieldPlace) (p : Placeholder) : List Step :=
  place.stepsBefore ++ place.step p :: place.stepsBehind

/-- A field stands at a place of an arrangement and is the first one with a tag. -/
structure HasFirst (a : Arrangement) (tag : String) (place : FieldPlace) (p : Placeholder) :
    Prop where
  steps_eq : a.steps = place.steps p
  tag_eq : p.fullTagName = tag
  noStepBefore : ∀ step ∈ place.stepsBefore, tag ∉ step.tags
  noFieldBefore : tag ∉ place.fieldsBefore.map (·.fullTagName)

/-- No field of a step has a tag. -/
def LacksTag (a : Arrangement) (tag : String) : Prop :=
  ∀ step ∈ a.steps, tag ∉ step.tags

variable {a : Arrangement} {tag : String} {place : FieldPlace} {p : Placeholder}

/-! ### Finding a field -/

theorem fieldIndex?_eq_none {fields : List Placeholder}
    (absent : tag ∉ fields.map (·.fullTagName)) : fieldIndex? fields (.str tag) = none := by
  rw [fieldIndex?, List.findIdx?_eq_none_iff]
  intro q qMem
  rw [beq_eq_false_iff_ne, Ne, Json.str.injEq]
  rintro rfl
  exact absent (List.mem_map_of_mem qMem)

theorem fieldIndex?_append {before : List Placeholder}
    (absent : tag ∉ before.map (·.fullTagName)) (tag_eq : p.fullTagName = tag)
    (behind : List Placeholder) :
    fieldIndex? (before ++ p :: behind) (.str tag) = some before.length := by
  have noneBefore := fieldIndex?_eq_none absent
  rw [fieldIndex?] at noneBefore ⊢
  rw [List.findIdx?_append, noneBefore, List.findIdx?_cons, tag_eq, if_pos (beq_self_eq_true _)]
  simp

theorem findFieldFrom_eq_none {steps : List Step} (absent : ∀ step ∈ steps, tag ∉ step.tags)
    (first : Nat) : findFieldFrom (.str tag) first steps = none := by
  induction steps generalizing first with
  | nil => rfl
  | cons step rest ih =>
      obtain ⟨here, later⟩ := List.forall_mem_cons.mp absent
      rw [findFieldFrom, fieldIndex?_eq_none here]
      exact ih later (first + 1)

/-- Steps without a tag are passed over. -/
theorem findFieldFrom_append {before : List Step} (absent : ∀ step ∈ before, tag ∉ step.tags)
    (first : Nat) (steps : List Step) :
    findFieldFrom (.str tag) first (before ++ steps) =
      findFieldFrom (.str tag) (first + before.length) steps := by
  induction before generalizing first with
  | nil => rfl
  | cons step rest ih =>
      obtain ⟨here, later⟩ := List.forall_mem_cons.mp absent
      rw [List.cons_append, findFieldFrom, fieldIndex?_eq_none here]
      change findFieldFrom _ _ _ = _
      rw [ih later, List.length_cons, Nat.add_assoc, Nat.add_comm 1]

theorem HasFirst.findField (hasFirst : a.HasFirst tag place p) :
    a.findField (.str tag) = some (place.stepsBefore.length, place.fieldsBefore.length) := by
  rw [Arrangement.findField, hasFirst.steps_eq, FieldPlace.steps,
    findFieldFrom_append hasFirst.noStepBefore, Nat.zero_add, findFieldFrom, FieldPlace.step,
    fieldIndex?_append hasFirst.noFieldBefore hasFirst.tag_eq]

/-- A tag is missing, or there is a first field with it. -/
theorem lacksTag_or_hasFirst (a : Arrangement) (tag : String) :
    a.LacksTag tag ∨ ∃ place p, a.HasFirst tag place p := by
  cases found : a.steps.find? fun step => step.tags.contains tag with
  | none =>
      left
      intro step stepMem
      simpa using List.find?_eq_none.mp found step stepMem
  | some step =>
      right
      obtain ⟨held, stepsBefore, stepsBehind, steps_eq, noStepBefore⟩ :=
        List.find?_eq_some_iff_append.mp found
      obtain ⟨q, qMem, q_eq⟩ := List.mem_map.mp (List.contains_iff_mem.mp held)
      obtain ⟨p, first⟩ : ∃ p, step.fields.find? (fun p => p.fullTagName == tag) = some p :=
        Option.isSome_iff_exists.mp (List.find?_isSome.mpr ⟨q, qMem, by simpa using q_eq⟩)
      obtain ⟨tag_eq, fieldsBefore, fieldsBehind, fields_eq, noFieldBefore⟩ :=
        List.find?_eq_some_iff_append.mp first
      refine ⟨⟨stepsBefore, step.title, step.isGroup, fieldsBefore, fieldsBehind, stepsBehind⟩, p,
        ?_, by simpa using tag_eq, ?_, ?_⟩
      · rw [steps_eq, FieldPlace.steps, FieldPlace.step, ← fields_eq]
      · exact fun other otherMem => by simpa using noStepBefore other otherMem
      · intro before
        obtain ⟨other, otherMem, other_eq⟩ := List.mem_map.mp before
        simpa [other_eq] using noFieldBefore other otherMem

/-! ### Changing a field -/

theorem modify_append_cons {α : Type} (change : α → α) (before : List α) (x : α) (behind : List α) :
    (before ++ x :: behind).modify before.length change = before ++ change x :: behind := by
  induction before with
  | nil => rfl
  | cons y before ih => rw [List.cons_append, List.length_cons, List.modify_succ_cons, ih,
      List.cons_append]

theorem modifyField_of_lacksTag (lacks : a.LacksTag tag) (change : Placeholder → Placeholder) :
    a.modifyField (.str tag) change = a := by
  rw [modifyField, Arrangement.findField, findFieldFrom_eq_none lacks]

/-- The first field with a tag is changed, and nothing else. -/
theorem HasFirst.modifyField (hasFirst : a.HasFirst tag place p)
    (change : Placeholder → Placeholder) :
    a.modifyField (.str tag) change = { a with steps := place.steps (change p) } := by
  rw [Arrangement.modifyField, hasFirst.findField]
  simp only [modifyStep]
  rw [hasFirst.steps_eq, FieldPlace.steps, modify_append_cons, FieldPlace.step, modify_append_cons]
  rfl

/-- A field that keeps its tag is still the first one with it. -/
theorem HasFirst.changed (hasFirst : a.HasFirst tag place p) {q : Placeholder}
    (keepsTag : q.fullTagName = p.fullTagName) :
    HasFirst { a with steps := place.steps q } tag place q where
  steps_eq := rfl
  tag_eq := keepsTag.trans hasFirst.tag_eq
  noStepBefore := hasFirst.noStepBefore
  noFieldBefore := hasFirst.noFieldBefore

theorem HasFirst.unchanged (hasFirst : a.HasFirst tag place p) :
    { a with steps := place.steps p } = a := by
  rw [← hasFirst.steps_eq]

/-! ### Options -/

theorem filter_ne_of_notMem {options : List String} {option : String} (new : option ∉ options) :
    options.filter (fun other => Json.str other != .str option) = options := by
  rw [List.filter_eq_self]
  intro other otherMem
  rw [bne_iff_ne, Ne, Json.str.injEq]
  rintro rfl
  exact new otherMem

theorem addOption_of_allBlank {written : String} (blank : Text.AllBlank written.toList)
    (a : Arrangement) (tag : Json) : a.addOption tag written = a := by
  rw [addOption, Text.trim_eq_nil_iff.mpr blank]
  rfl

theorem addOption_of_lacksTag (lacks : a.LacksTag tag) (written : String) :
    a.addOption (.str tag) written = a := by
  unfold addOption
  split
  · rfl
  · exact modifyField_of_lacksTag lacks _

theorem HasFirst.addOption (hasFirst : a.HasFirst tag place p) {written : String}
    (filled : ¬Text.AllBlank written.toList) :
    a.addOption (.str tag) written =
      { a with
        steps := place.steps
          { p with options := p.options ++ [Text.mapChars Text.unescape written] } } := by
  rw [Arrangement.addOption, if_neg, hasFirst.modifyField]
  rwa [List.isEmpty_iff, Text.trim_eq_nil_iff]

/-- An option that the field does not have is taken out without effect. -/
theorem HasFirst.removeOption_of_notMem (hasFirst : a.HasFirst tag place p) {option : String}
    (new : option ∉ p.options) : a.removeOption (.str tag) (.str option) = a := by
  rw [removeOption, hasFirst.modifyField, filter_ne_of_notMem new, hasFirst.unchanged]

/-- An option that the field did not have is taken out again, and nothing else. -/
theorem HasFirst.removeOption_addOption (hasFirst : a.HasFirst tag place p) {written : String}
    (new : Text.mapChars Text.unescape written ∉ p.options) :
    (a.addOption (.str tag) written).removeOption (.str tag)
      (.str (Text.mapChars Text.unescape written)) = a := by
  by_cases blank : Text.AllBlank written.toList
  · rw [addOption_of_allBlank blank, hasFirst.removeOption_of_notMem new]
  · rw [hasFirst.addOption blank]
    generalize Text.mapChars Text.unescape written = option at new ⊢
    have changed := hasFirst.changed (q := { p with options := p.options ++ [option] }) rfl
    have removed : (p.options ++ [option]).filter (fun other => Json.str other != .str option) =
        p.options := by
      rw [List.filter_append, filter_ne_of_notMem new]
      simp
    rw [removeOption, changed.modifyField, removed, hasFirst.unchanged]

/-- An option that is written with escapes is the text that was written: each escape is read once,
and what is read is not read again, whatever stands behind.  Adding it appends this text to the
options of the first field with the tag and changes nothing else, unless what is written is blank,
and taking it out again restores the arrangement when the field did not have it before. -/
theorem written_option_comes_and_goes {text written : String}
    (spells : Text.Spells text.toList written.toList) :
    Text.mapChars Text.unescape written = text ∧
      (∀ behind, Text.unescape (written.toList ++ behind) =
        text.toList ++ Text.unescape behind) ∧
      ∀ (a : Arrangement) (tag : String),
        a.LacksTag tag ∧ a.addOption (.str tag) written = a ∧
            a.removeOption (.str tag) (.str text) = a ∨
          ∃ place p, a.HasFirst tag place p ∧
            (Text.AllBlank written.toList → a.addOption (.str tag) written = a) ∧
            (¬Text.AllBlank written.toList → a.addOption (.str tag) written =
              { a with steps := place.steps { p with options := p.options ++ [text] } }) ∧
            (text ∉ p.options →
              (a.addOption (.str tag) written).removeOption (.str tag) (.str text) = a) := by
  have read : Text.mapChars Text.unescape written = text := by
    have whole := spells.unescape_append []
    rw [List.append_nil] at whole
    rw [Text.mapChars, whole]
    simp [Text.unescape, Text.unescapeFrom]
  subst read
  refine ⟨rfl, spells.unescape_append, fun a tag => ?_⟩
  rcases a.lacksTag_or_hasFirst tag with lacks | ⟨place, p, hasFirst⟩
  · exact .inl ⟨lacks, addOption_of_lacksTag lacks written, modifyField_of_lacksTag lacks _⟩
  · refine .inr ⟨place, p, hasFirst, fun blank => addOption_of_allBlank blank a _, ?_, ?_⟩
    · exact hasFirst.addOption
    · exact hasFirst.removeOption_addOption

/-- An arrangement with two fields of one tag in a step. -/
def twoSizes : Arrangement :=
  { steps := [{
      title := .str "Step 1"
      fields := [{ fullTagName := "Size", options := ["large"] }, { fullTagName := "Size" }] }] }

/-- The text of the option looks like an escape itself. -/
theorem written_option_comes_and_goes_escapedMark :
    Text.Spells "é\\u0041".toList "\\u00E9\\u005cu0041".toList ∧
      Text.mapChars Text.unescape "\\u00E9\\u005cu0041" = "é\\u0041" ∧
      (twoSizes.addOption (.str "Size") "\\u00E9\\u005cu0041").steps = [{
        title := .str "Step 1"
        fields := [{ fullTagName := "Size", options := ["large", "é\\u0041"] },
          { fullTagName := "Size" }] }] ∧
      (twoSizes.addOption (.str "Size") "\\u00E9\\u005cu0041").removeOption (.str "Size")
        (.str "é\\u0041") = twoSizes := by
  have spells : Text.Spells "é\\u0041".toList "\\u00E9\\u005cu0041".toList := by
    have mark : Text.Spells ['\\', 'u', '0', '0', '4', '1']
        ("\\u005c".toList ++ ['u', '0', '0', '4', '1']) :=
      @Text.Spells.escaped '\\' ['0', '0', '5', 'c'] _ _ (by decide) (by decide) <|
        .plain (by decide) <| .plain (by decide) <| .plain (by decide) <| .plain (by decide) <|
          .plain (by decide) .nil
    exact @Text.Spells.escaped 'é' ['0', '0', 'E', '9'] _ _ (by decide) (by decide) mark
  obtain ⟨read, _, changes⟩ := written_option_comes_and_goes spells
  refine ⟨spells, read, by decide +kernel, ?_⟩
  rcases changes twoSizes "Size" with ⟨lacks, _⟩ | ⟨place, p, hasFirst, _, _, restored⟩
  · exact absurd (lacks _ List.mem_cons_self) (by decide)
  · apply restored
    have new : ∀ step ∈ twoSizes.steps, ∀ p ∈ step.fields, "é\\u0041" ∉ p.options := by
      decide +kernel
    rw [hasFirst.steps_eq] at new
    exact new (place.step p) (by simp [FieldPlace.steps]) p (by simp [FieldPlace.step])

end Stencil.Arrangement
