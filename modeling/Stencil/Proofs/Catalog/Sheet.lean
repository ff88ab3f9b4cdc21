import Stencil.Catalog.Row
import Stencil.Proofs.Json.Fields

/-!
# The rows of a sheet by columns

A sheet is read as it was written, but for empty texts, and its rows are filled up to the
width of the widest.  When the headings are distinct names, the cell at a position of a row
is found under the heading at this position, and the columns beyond the headings are lost.
-/

namespace Stencil

namespace Workbook

/-- What comes back of a cell that is read as it was written: an empty text is no cell. -/
def readBack (cell : Json) : Json :=
  if cell = .str "" then .null else cell

/-- The rows of a sheet that are read as they were written, filled up with null. -/
def asWritten (rows : List (List Json)) : List (List Json) :=
  rows.map fun row => padded (width rows) (row.map readBack)

theorem readBack_ne_blank (cell : Json) : readBack cell ≠ .str "" := by
  unfold readBack
  split
  · exact Json.noConfusion
  · next notBlank => exact notBlank

/-- A function that makes no difference between null and an empty text makes none between
what is written and what is read. -/
theorem apply_readBack {β : Type} (f : Json → β) (blank_eq : f (.str "") = f .null)
    (cell : Json) : f (readBack cell) = f cell := by
  unfold readBack
  split
  · next blank => rw [blank, blank_eq]
  · rfl

theorem getD_padded (width : Nat) (row : List Json) (index : Nat) :
    (padded width row).getD index .null = row.getD index .null := by
  rw [padded, List.getD_eq_getElem?_getD, List.getD_eq_getElem?_getD, List.getElem?_append]
  split
  · rfl
  · next beyond =>
      rw [List.getElem?_eq_none (Nat.le_of_not_lt beyond), List.getElem?_replicate]
      split <;> rfl

theorem getD_map_readBack (row : List Json) (index : Nat) :
    (row.map readBack).getD index .null = readBack (row.getD index .null) := by
  rw [List.getD_eq_getElem?_getD, List.getD_eq_getElem?_getD, List.getElem?_map]
  cases row[index]? <;> rfl

end Workbook

namespace Row

/-- The headings of a table: distinct names without blanks around them. -/
structure AreHeadings (headings : List String) : Prop where
  nodup : headings.Nodup
  given : ∀ name ∈ headings, name ≠ ""
  trimmed : ∀ name ∈ headings, Text.trimmed name = name

/-- The names that stand in the first row of a sheet, which may be filled up with null, are the
headings with empty names for the columns beyond. -/
theorem map_heading {headings : List String} (proper : AreHeadings headings) (width : Nat) :
    (Workbook.padded width ((headings.map Json.str).map Workbook.readBack)).map heading =
      headings ++ List.replicate (width - headings.length) "" := by
  have read : (headings.map Json.str).map Workbook.readBack = headings.map Json.str := by
    rw [List.map_map]
    apply List.map_congr_left
    intro name nameMem
    simp [Workbook.readBack, proper.given name nameMem]
  have named : (headings.map Json.str).map heading = headings := by
    rw [List.map_map]
    calc
      headings.map (heading ∘ Json.str) = headings.map id := by
        apply List.map_congr_left
        intro name nameMem
        simp [heading, Json.isGiven, proper.given name nameMem, Json.plain,
          proper.trimmed name nameMem]
      _ = headings := List.map_id headings
  rw [read, Workbook.padded, List.map_append, named, List.map_replicate, List.length_map]
  rfl

/-- The columns without heading make no difference to a row. -/
theorem ofCells_append_blanks {headings : List String} (proper : AreHeadings headings)
    (columns : Nat) (cells : List Json) :
    ofCells (headings ++ List.replicate columns "") cells = headings.zip cells := by
  have named : ((headings ++ List.replicate columns "").zip cells).filter
      (fun column => column.1 != "") = headings.zip cells := by
    have given := proper.given
    clear proper
    induction headings generalizing cells with
    | nil =>
        rw [List.nil_append, List.zip_nil_left, List.filter_eq_nil_iff]
        rintro ⟨name, cell⟩ columnMem
        simp [List.eq_of_mem_replicate (List.of_mem_zip columnMem).1]
    | cons name rest ih =>
        rcases List.forall_mem_cons.mp given with ⟨here, later⟩
        cases cells with
        | nil => rfl
        | cons cell cells => simp [here, ih cells later]
  have nodup : ((headings.zip cells).map (·.1)).Nodup :=
    proper.nodup.sublist (Json.map_fst_zip_sublist headings cells)
  rw [ofCells, named, Json.distinctFields_eq_self nodup]

end Row

end Stencil
