import Stencil.Proofs.Schema.Preview

/-!
# Keys of a compiled step

A client stores what is entered by the keys of fields and groups.  Where the tags of a step are
distinct, the keys of the fields that stand alone are, being whole tags, and so are the keys of the
groups and those of the members of a group.  But a field that stands alone and a group have one key
where the whole tag of the field is the name of the group, and only there.
-/

namespace Stencil

open Placeholder

/-- A tag that names a group has no dot, so its own placeholder is in no group. -/
theorem Placeholder.InGroup.standsAlone {p q : Placeholder} (inGroup : InGroup p.fullTagName q) :
    StandsAlone p := by
  obtain ⟨_, parted⟩ := inGroup
  rw [standsAlone_iff]
  by_contra given
  exact parted.undotted (List.contains_iff_mem.mp (isDotted_of_memberOf_ne given))

namespace FormStep

/-- The keys tell the fields that stand alone apart, and the groups, and the members of a group. -/
structure KeysTellApart (compiled : FormStep) : Prop where
  standalone : (compiled.standalone.map (·.key)).Nodup
  groups : (compiled.groups.map (·.key)).Nodup
  members : ∀ group ∈ compiled.groups, (group.fields.map (·.key)).Nodup

variable {compiled : FormStep} {step : Step} {types : List FieldType}

/-- The keys of the fields that stand alone are their tags. -/
theorem IsFormOf.keys_standalone (form : compiled.IsFormOf types step) :
    compiled.standalone.map (·.key) = tagsOf (step.fields.filter fun p => StandsAlone p) := by
  have keyed : List.Forall₂ (fun field p => field.key = p.fullTagName) compiled.standalone
      (step.fields.filter fun p => StandsAlone p) :=
    form.standalone.imp fun _ _ shows => shows.2
  rwa [← List.forall₂_eq_eq_eq, List.forall₂_map_left_iff, List.forall₂_map_right_iff]

theorem IsFormOf.keys_fields (form : compiled.IsFormOf types step) :
    compiled.fields.map FormEntry.key =
      compiled.standalone.map (·.key) ++ compiled.groups.map (·.key) := by
  conv_lhs => rw [form.parts]
  rw [List.map_append, List.map_map, List.map_map]
  rfl

theorem IsFormOf.nodup_keys_standalone (form : compiled.IsFormOf types step)
    (distinct : step.tags.Nodup) : (compiled.standalone.map (·.key)).Nodup := by
  rw [form.keys_standalone]
  exact distinct.sublist (List.filter_sublist.map _)

/-- Entries have one key exactly where the tag of a field is the name of a group. -/
theorem IsFormOf.nodup_keys_fields_iff (form : compiled.IsFormOf types step)
    (distinct : step.tags.Nodup) :
    (compiled.fields.map FormEntry.key).Nodup ↔
      ∀ p ∈ step.fields, ∀ q ∈ step.fields, ¬InGroup p.fullTagName q := by
  rw [form.keys_fields, List.nodup_append]
  constructor
  · rintro ⟨_, _, apart⟩ p pMem q qMem inGroup
    have aloneMem : p.fullTagName ∈ compiled.standalone.map (·.key) := by
      rw [form.keys_standalone]
      exact List.mem_map_of_mem
        (List.mem_filter.mpr ⟨pMem, decide_eq_true inGroup.standsAlone⟩)
    have groupMem : p.fullTagName ∈ compiled.groups.map (·.key) :=
      (form.mem_groups_iff _).mpr ⟨q, qMem, inGroup⟩
    exact apart _ aloneMem _ groupMem rfl
  · intro apart
    refine ⟨form.nodup_keys_standalone distinct, form.groups_nodup, ?_⟩
    rintro key aloneMem _ groupMem rfl
    rw [form.keys_standalone] at aloneMem
    obtain ⟨p, pMem, rfl⟩ := List.mem_map.mp aloneMem
    obtain ⟨q, qMem, inGroup⟩ := (form.mem_groups_iff _).mp groupMem
    exact apart p (List.mem_of_mem_filter pMem) q qMem inGroup

theorem keysTellApart_ofStep (context : CompileContext) (texts : step.HoldsTexts)
    (distinct : step.tags.Nodup) : (ofStep context step).KeysTellApart where
  standalone := (isFormOf_ofStep context texts).nodup_keys_standalone distinct
  groups := (isFormOf_ofStep context texts).groups_nodup
  members := by
    intro group groupMem
    rw [groups_ofStep] at groupMem
    obtain ⟨name, _, rfl⟩ := List.mem_map.mp groupMem
    rw [FormGroup.fields_withExamples]
    exact nodup_keys_groupFields context distinct name

/-- A step with distinct tags that compiles has keys that tell its fields apart, its groups and the
members of each group.  The keys of all its entries are distinct exactly when no tag of the step is
the name of a group that has a member in the step. -/
theorem keys_of_compile (context : CompileContext) {step : Step} (distinct : step.tags.Nodup) :
    ((∃ compiled, compile context step = .ok compiled) ↔ step.HoldsTexts) ∧
      ∀ compiled, compile context step = .ok compiled →
        compiled.KeysTellApart ∧
        ((compiled.fields.map FormEntry.key).Nodup ↔
          ∀ p ∈ step.fields, ∀ q ∈ step.fields, ¬InGroup p.fullTagName q) := by
  simp only [compile_eq_ok_iff]
  constructor
  · exact ⟨fun ⟨_, texts, _⟩ => texts, fun texts => ⟨_, texts, rfl⟩⟩
  · rintro compiled ⟨texts, rfl⟩
    exact ⟨keysTellApart_ofStep context texts distinct,
      (isFormOf_ofStep context texts).nodup_keys_fields_iff distinct⟩

/-- A step with members of several groups, one of them without a name, and with tags that come
close to the names of groups. -/
def nearbyStep : Step :=
  { title := .str "Parties"
    fields := ["Party.", "Party.Name", ".Name", "Name", "Party.Name.First", "Party.Other", "Other",
      "Other."].map fun tag => { fullTagName := tag } }

theorem keys_of_nearbyStep :
    nearbyStep.tags.Nodup ∧ ∃ compiled, compile {} nearbyStep = .ok compiled ∧
      compiled.KeysTellApart ∧ (compiled.fields.map FormEntry.key).Nodup := by
  have distinct : nearbyStep.tags.Nodup := by decide
  have compiles : compile {} nearbyStep = .ok (ofStep {} nearbyStep) := rfl
  obtain ⟨apart, nodup_iff⟩ := (keys_of_compile {} distinct).2 _ compiles
  exact ⟨distinct, _, compiles, apart, nodup_iff.mpr (by decide)⟩

/-- A field and a group with one key. -/
theorem field_shares_key_with_group :
    let step : Step :=
      { title := .str "", fields := ["A", "A.b"].map fun tag => { fullTagName := tag } }
    step.tags.Nodup ∧ ∃ compiled, compile {} step = .ok compiled ∧
      ¬(compiled.fields.map FormEntry.key).Nodup :=
  ⟨by decide, _, rfl, by decide⟩

end FormStep

end Stencil
