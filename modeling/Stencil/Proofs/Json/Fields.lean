import Stencil.Json.Basic
import Stencil.Proofs.Distinct

/-!
# Fields with distinct names

An object whose names are distinct keeps its fields as they come, and every one of them is
found under its name.
-/

namespace Stencil

namespace Json

theorem insertField_eq_append {fields : List (String × Json)} {name : String} (value : Json)
    (new : name ∉ fields.map (·.1)) :
    insertField fields name value = fields ++ [(name, value)] := by
  induction fields with
  | nil => rfl
  | cons field rest ih =>
      rcases field with ⟨key, old⟩
      simp only [List.map_cons, List.mem_cons, not_or] at new
      simp [insertField, Ne.symm new.1, ih new.2]

/-- Fields with distinct names are kept as they are. -/
theorem distinctFields_eq_self {fields : List (String × Json)}
    (nodup : (fields.map (·.1)).Nodup) : distinctFields fields = fields :=
  foldl_put_eq_append (fun _ field new => insertField_eq_append field.2 new) nodup

/-- Among fields with distinct names every field is found. -/
theorem field?_of_mem {fields : List (String × Json)} (nodup : (fields.map (·.1)).Nodup)
    {name : String} {value : Json} (fieldMem : (name, value) ∈ fields) :
    field? fields name = some value :=
  (lookup_eq_some_iff_mem nodup).mpr fieldMem

theorem map_fst_zip_sublist (names : List String) (values : List Json) :
    ((names.zip values).map (·.1)).Sublist names := by
  induction names generalizing values with
  | nil => exact List.Sublist.slnil
  | cons name rest ih =>
      cases values with
      | nil => exact List.nil_sublist _
      | cons value values => exact (ih values).cons_cons name

/-- Under the name at a position stands the value at that position. -/
theorem field?_zip {names : List String} (nodup : names.Nodup) {values : List Json} {index : Nat}
    {name : String} (name_eq : names[index]? = some name) :
    field? (names.zip values) name = values[index]? := by
  induction names generalizing values index with
  | nil => cases name_eq
  | cons first rest ih =>
      rw [List.nodup_cons] at nodup
      cases values with
      | nil => rfl
      | cons value values =>
          cases index with
          | zero =>
              cases name_eq
              simp [field?]
          | succ index =>
              have other : name ≠ first := by
                rintro rfl
                exact nodup.1 (List.mem_of_getElem? name_eq)
              rw [List.zip_cons_cons, field?, List.lookup_cons, beq_eq_false_iff_ne.mpr other]
              exact ih nodup.2 name_eq

/-- Nothing stands under what is no name. -/
theorem field?_eq_none {fields : List (String × Json)} {name : String}
    (noName : name ∉ fields.map (·.1)) : field? fields name = none := by
  refine List.lookup_eq_none_iff.mpr ?_
  intro field fieldMem
  rw [bne_iff_ne]
  rintro rfl
  exact noName (List.mem_map_of_mem fieldMem)

theorem field?_zip_eq_none {names : List String} {values : List Json} {name : String}
    (noName : name ∉ names) : field? (names.zip values) name = none :=
  field?_eq_none fun isName => noName ((map_fst_zip_sublist names values).subset isName)

end Json

end Stencil
