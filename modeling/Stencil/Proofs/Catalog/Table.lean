import Mathlib.Data.List.Forall2
import Stencil.Catalog.Basic
import Stencil.Proofs.Catalog.Sheet
import Stencil.Proofs.Text.Split
import Stencil.Proofs.Text.Trim

/-!
# Catalogues as tables

The same table can be kept as a JSON list of objects or in a sheet of a workbook.  The sheet
has no empty texts and no lists, passes over rows with nothing in them and fills up short
ones.  None of this shows in a catalogue: its records read every column so that null and an
empty text make no difference, a row without tag or id makes no record, and options that
are listed in one text are parted again.
-/

namespace Stencil

namespace Catalog

open Row Workbook

/-- An option that can be listed in one text with others. -/
structure IsListable (option : String) : Prop where
  given : option ≠ ""
  trimmed : Text.trimmed option = option
  unparted : optionSeparator ∉ option.toList

/-- An option with blanks around it. -/
def IsPadded (option : String) (piece : List Char) : Prop :=
  ∃ before after, Text.AllBlank before ∧ Text.AllBlank after ∧
    piece = before ++ option.toList ++ after

/-- A text that lists options, with any blanks around the separators. -/
def Lists (text : String) (options : List String) : Prop :=
  ∃ pieces, List.Forall₂ IsPadded options pieces ∧
    text.toList = Text.join [optionSeparator] pieces

theorem IsPadded.trim_eq {option : String} {piece : List Char} (listable : IsListable option)
    (padded : IsPadded option piece) : Text.trim piece = option.toList := by
  obtain ⟨before, after, beforeBlank, afterBlank, rfl⟩ := padded
  rw [Text.trim_between_blanks beforeBlank afterBlank]
  have trimmed := congrArg String.toList listable.trimmed
  rwa [Text.trimmed, Text.mapChars, String.toList_ofList] at trimmed

theorem IsPadded.unparted {option : String} {piece : List Char} (listable : IsListable option)
    (padded : IsPadded option piece) : ∀ c ∈ piece, (c == optionSeparator) = false := by
  obtain ⟨before, after, beforeBlank, afterBlank, rfl⟩ := padded
  have separator : Text.isBlank optionSeparator = false := by decide
  intro c cMem
  rw [beq_eq_false_iff_ne]
  rintro rfl
  rcases List.mem_append.mp cMem with inFront | behind
  · rcases List.mem_append.mp inFront with blank | own
    · rw [beforeBlank _ blank] at separator
      cases separator
    · exact listable.unparted own
  · rw [afterBlank _ behind] at separator
    cases separator

/-- Padded options are trimmed to the options and hold no separator. -/
theorem pieces_of_padded {options : List String} {pieces : List (List Char)}
    (listable : ∀ option ∈ options, IsListable option)
    (padded : List.Forall₂ IsPadded options pieces) :
    pieces.map Text.trim = options.map String.toList ∧
      ∀ piece ∈ pieces, ∀ c ∈ piece, (c == optionSeparator) = false := by
  induction padded with
  | nil => exact ⟨rfl, by simp⟩
  | cons here _ ih =>
      rcases List.forall_mem_cons.mp listable with ⟨first, rest⟩
      obtain ⟨trimmed, unparted⟩ := ih rest
      constructor
      · rw [List.map_cons, List.map_cons, here.trim_eq first, trimmed]
      · exact List.forall_mem_cons.mpr ⟨here.unparted first, unparted⟩

/-- The options that a text lists are read from it. -/
theorem optionsOf_of_lists {text : String} {options : List String}
    (listable : ∀ option ∈ options, IsListable option) (lists : Lists text options) :
    optionsOf (.str text) = options := by
  obtain ⟨pieces, padded, text_eq⟩ := lists
  obtain ⟨trimmed, unparted⟩ := pieces_of_padded listable padded
  cases pieces with
  | nil =>
      cases padded
      obtain rfl : text = "" := String.toList_inj.mp text_eq
      rfl
  | cons piece rest =>
      have split_eq : Text.splitWhere (· == optionSeparator) text.toList = piece :: rest := by
        rw [text_eq]
        exact Text.splitWhere_join (by decide) (List.cons_ne_nil _ _) unparted
      have given : ∀ part ∈ options.map String.toList, (!part.isEmpty) = true := by
        intro part partMem
        rcases List.mem_map.mp partMem with ⟨option, optionMem, rfl⟩
        simpa using (listable option optionMem).given
      have restored : (options.map String.toList).map String.ofList = options := by
        simp [List.map_map]
      simp only [optionsOf, Json.plain]
      rw [split_eq, trimmed, List.filter_eq_self.mpr given, restored]

theorem orElse_orElse (value other : Json) :
    (value.orElse other).orElse other = value.orElse other := by
  by_cases given : value.isGiven <;> simp [Json.orElse, given]

/-- The placeholder that a row makes up, column by column.  Only the order can be faulty. -/
theorem placeholderOf_eq_columns (row : Row) :
    placeholderOf row =
      ((Checked.below "order" (Record.wholeNumber ((cell row "order").orElse (.int 0)))).map
        fun order =>
          { fullTagName := tagOf row
            placeholderTypeId := Placeholder.idText (cell row "placeholder_type_id")
            fieldTypeId := .str (Placeholder.idText (cell row "field_type_id"))
            name := Placeholder.nameText ((cell row "name").orElse (.str ""))
            required := isSet (cell row "required")
            options := optionsOf (cell row "options")
            order : Placeholder }).toExcept := by
  have options_eq : (optionsOf (cell row "options")).map (Json.plain ∘ Json.str) =
      optionsOf (cell row "options") := List.map_id _
  simp only [placeholderOf, Placeholder.ofFields, Placeholder.check, Placeholder.fieldOr,
    Json.field?, List.lookup_cons, String.reduceBEq, Record.requiredText, Record.textOr,
    Option.getD_some, Record.text, Placeholder.optionTexts, List.map_map, options_eq,
    orElse_orElse, Json.isGiven]
  simp only [List.lookup_nil, Option.getD_none, Record.optionalText, Checked.below]
  cases Record.wholeNumber ((cell row "order").orElse (.int 0)) with
  | sound order => rfl
  | faulty found => rfl
  | unlistable => rfl

/-- The value under a name in a JSON row, and the cell in which a workbook has the same: the
value itself or, for the options, a text that lists them. -/
inductive SameCell (name : String) : Json → Json → Prop
  | value (cell : Json) : SameCell name cell cell
  | options {options : List String} {text : String} (name_eq : name = "options")
      (listable : ∀ option ∈ options, IsListable option) (lists : Lists text options) :
      SameCell name (.arr (options.map .str)) (.str text)

/-- A JSON row and cells below some headings hold the same.  Columns that are left out, at the
end of the cells or in the JSON row, are null. -/
structure SameRow (headings : List String) (row : Row) (cells : List Json) : Prop where
  under : ∀ index name, headings[index]? = some name →
    SameCell name (cell row name) (cells.getD index .null)
  only : ∀ name ∉ headings, Json.field? row name = none

/-- A row that was read has what stands in a JSON row, but for empty texts. -/
def ReadsAs (row read : Row) : Prop :=
  ∀ name, ∃ written, SameCell name (cell row name) written ∧ cell read name = readBack written

section

variable {headings : List String} (proper : AreHeadings headings) {row : Row} {cells : List Json}
  (width columns : Nat)

include proper

/-- The row of a sheet that holds the same as a JSON row reads as it. -/
theorem readsAs_of_sameRow (same : SameRow headings row cells) :
    ReadsAs row (ofCells (headings ++ List.replicate columns "")
      (padded width (cells.map readBack))) := by
  intro name
  rw [ofCells_append_blanks proper]
  by_cases nameMem : name ∈ headings
  · obtain ⟨index, name_eq⟩ := List.getElem?_of_mem nameMem
    refine ⟨_, same.under index name name_eq, ?_⟩
    rw [cell, Json.field?_zip proper.nodup name_eq, ← List.getD_eq_getElem?_getD, getD_padded,
      getD_map_readBack]
  · refine ⟨.null, ?_, ?_⟩
    · rw [cell, same.only name nameMem]
      exact .value _
    · rw [cell, Json.field?_zip_eq_none nameMem]
      rfl

/-- Under every name of a blank row stands null. -/
theorem cell_of_isBlank (blank : isBlank (padded width (cells.map readBack)) = true)
    (name : String) :
    cell (ofCells (headings ++ List.replicate columns "") (padded width (cells.map readBack)))
      name = .null := by
  rw [ofCells_append_blanks proper]
  by_cases nameMem : name ∈ headings
  · obtain ⟨index, name_eq⟩ := List.getElem?_of_mem nameMem
    rw [cell, Json.field?_zip proper.nodup name_eq, ← List.getD_eq_getElem?_getD, getD_padded,
      getD_map_readBack, List.getD_eq_getElem?_getD]
    cases cell_eq : cells[index]? with
    | none => rfl
    | some value =>
        have readMem : readBack value ∈ padded width (cells.map readBack) :=
          List.mem_append_left _ (List.mem_map_of_mem (List.mem_of_getElem? cell_eq))
        simpa [readBack_ne_blank value] using List.all_eq_true.mp blank _ readMem
  · rw [cell, Json.field?_zip_eq_none nameMem]
    rfl

end

namespace ReadsAs

variable {row read : Row}

theorem cell_eq_readBack (readsAs : ReadsAs row read) (name : String)
    (notOptions : name ≠ "options") : cell read name = readBack (cell row name) := by
  obtain ⟨written, same, read_eq⟩ := readsAs name
  rw [read_eq]
  generalize cell row name = value at same ⊢
  cases same with
  | value => rfl
  | options name_eq => exact absurd name_eq notOptions

/-- In a column other than that of the options null and an empty text make the only
difference. -/
theorem apply_cell {β : Type} (readsAs : ReadsAs row read) (name : String)
    (notOptions : name ≠ "options") (f : Json → β) (blank_eq : f (.str "") = f .null) :
    f (cell read name) = f (cell row name) := by
  rw [readsAs.cell_eq_readBack name notOptions, apply_readBack f blank_eq]

theorem optionsOf_eq (readsAs : ReadsAs row read) :
    optionsOf (cell read "options") = optionsOf (cell row "options") := by
  obtain ⟨written, same, read_eq⟩ := readsAs "options"
  rw [read_eq, apply_readBack optionsOf rfl]
  generalize cell row "options" = value at same ⊢
  cases same with
  | value => rfl
  | @options options text _ listable lists =>
      rw [optionsOf_of_lists listable lists, optionsOf, List.map_map]
      simp [Json.plain, Function.comp_def]

theorem tagOf_eq (readsAs : ReadsAs row read) : tagOf read = tagOf row :=
  readsAs.apply_cell "full_tag_name" (by decide)
    (fun value => if value.isGiven then Text.trimmed value.plain else "") rfl

theorem placeholderOf_eq (readsAs : ReadsAs row read) : placeholderOf read = placeholderOf row := by
  rw [placeholderOf_eq_columns, placeholderOf_eq_columns row,
    readsAs.apply_cell "placeholder_type_id" (by decide) Placeholder.idText rfl,
    readsAs.apply_cell "field_type_id" (by decide) Placeholder.idText rfl,
    readsAs.apply_cell "name" (by decide) (·.orElse (.str "")) rfl,
    readsAs.apply_cell "required" (by decide) isSet rfl,
    readsAs.apply_cell "order" (by decide) (·.orElse (.int 0)) rfl,
    readsAs.optionsOf_eq, readsAs.tagOf_eq]

theorem hasId_eq (readsAs : ReadsAs row read) : hasId read = hasId row :=
  readsAs.apply_cell "id" (by decide) (fun id => id != .null && id != .str "") rfl

theorem idAndName_eq (readsAs : ReadsAs row read) (has : hasId row = true) :
    idAndName read = idAndName row := by
  have id_eq : cell read "id" = cell row "id" := by
    rw [readsAs.cell_eq_readBack "id" (by decide), readBack, if_neg]
    intro blank
    rw [hasId, blank] at has
    cases has
  rw [idAndName, idAndName, id_eq,
    readsAs.apply_cell "name" (by decide) (·.orElse (.str "")) rfl]

end ReadsAs

/-- Records are made of some rows by what reads the same in their columns, and none is made of a
row with nothing in it. -/
structure IsColumnwise {β : Type} (keep : Row → Bool) (take : Row → β) : Prop where
  keep_eq : ∀ {row read}, ReadsAs row read → keep read = keep row
  take_eq : ∀ {row read}, ReadsAs row read → keep row = true → take read = take row
  keep_blank : ∀ {row}, (∀ name, cell row name = .null) → keep row = false

theorem placeholderOf_isColumnwise : IsColumnwise (tagOf · != "") placeholderOf where
  keep_eq readsAs := by rw [readsAs.tagOf_eq]
  take_eq readsAs _ := readsAs.placeholderOf_eq
  keep_blank blank := by rw [tagOf, blank]; rfl

theorem idAndName_isColumnwise {β : Type} (make : String → String → β) :
    IsColumnwise hasId fun row => make (idAndName row).1 (idAndName row).2 where
  keep_eq readsAs := readsAs.hasId_eq
  take_eq readsAs has := by rw [readsAs.idAndName_eq has]
  keep_blank blank := by rw [hasId, blank]; rfl

/-- The rows of a sheet that hold the same as JSON rows give the same records. -/
theorem IsColumnwise.map_filter_ofCells {β : Type} {keep : Row → Bool} {take : Row → β}
    (columnwise : IsColumnwise keep take) {headings : List String} (proper : AreHeadings headings)
    (width columns : Nat) {rows : List (Row × List Json)}
    (same : ∀ entry ∈ rows, SameRow headings entry.1 entry.2) :
    (((((rows.map (·.2)).map fun cells => padded width (cells.map readBack)).filter
        fun cells => !isBlank cells).map
      (ofCells (headings ++ List.replicate columns ""))).filter keep).map take =
      ((rows.map (·.1)).filter keep).map take := by
  induction rows with
  | nil => rfl
  | cons entry rest ih =>
      obtain ⟨here, later⟩ := List.forall_mem_cons.mp same
      have readsAs := readsAs_of_sameRow proper width columns here
      specialize ih later
      simp only [List.map_cons, List.filter_cons]
      by_cases blank : isBlank (padded width (entry.2.map readBack)) = true
      · -- The reader passes the row over, and so does the catalogue.
        have dropped : keep entry.1 = false := by
          rw [← columnwise.keep_eq readsAs]
          exact columnwise.keep_blank (cell_of_isBlank proper width columns blank)
        simpa [blank, dropped] using ih
      · by_cases kept : keep entry.1 = true
        · simpa [blank, columnwise.keep_eq readsAs, kept, columnwise.take_eq readsAs kept] using ih
        · simpa [blank, columnwise.keep_eq readsAs, kept] using ih

end Catalog

/-- A table of a catalogue, written in two ways: its headings, and its rows each as the fields
of a JSON object and as the cells of a sheet. -/
structure Table where
  headings : List String
  rows : List (Row × List Json)

namespace Table

open Catalog

/-- The rows as JSON objects. -/
def objects (table : Table) : List Json :=
  table.rows.map fun entry => .obj entry.1

/-- The cells of the sheet, below the headings. -/
def sheet (table : Table) : List (List Json) :=
  table.headings.map .str :: table.rows.map (·.2)

/-- A table whose rows hold the same in both ways. -/
structure IsProper (table : Table) : Prop where
  headings : Row.AreHeadings table.headings
  rows : ∀ entry ∈ table.rows, SameRow table.headings entry.1 entry.2

/-- A JSON file holds the list of the objects of a table. -/
structure IsListedIn (table : Table) (files : Files) (path : FilePath) : Prop where
  extension : String.ofList (Text.lower path.extension) = ".json"
  content : ∃ content text, files.find? path = some content ∧ content.text? = some text ∧
    Json.parse? text = some (.arr table.objects)

/-- A workbook holds the cells of a table in a sheet, which is read as it was written. -/
structure IsSheetOf (table : Table) (files : Files) (path : FilePath) (name : String) :
    Prop where
  extension : String.ofList (Text.lower path.extension) ∈ [".xlsx", ".xlsm"]
  content : ∃ workbook, files.find? path = some (.workbook workbook) ∧
    workbook.rows? name = some (Workbook.asWritten table.sheet)

variable {table : Table} {files : Files} {listPath bookPath : FilePath}

theorem IsListedIn.load_eq (listed : table.IsListedIn files listPath) (name : String) :
    Row.load files listPath name = .ok (table.rows.map (·.1)) := by
  obtain ⟨content, text, found, text_eq, parsed⟩ := listed.content
  have objects_eq : Row.objectsOf table.objects = table.rows.map (·.1) := by
    simp [Row.objectsOf, objects, List.filterMap_map]
  simp [Row.load, found, listed.extension, Row.ofJsonFile, text_eq, parsed, Row.listIn?,
    objects_eq]

theorem IsSheetOf.load_eq {name : String} (sheetOf : table.IsSheetOf files bookPath name) :
    Row.load files bookPath name = .ok (Row.ofSheet (Workbook.asWritten table.sheet)) := by
  obtain ⟨workbook, found, rows_eq⟩ := sheetOf.content
  rcases List.mem_pair.mp sheetOf.extension with extension | extension <;>
    simp [Row.load, found, extension, Row.ofWorkbookFile, rows_eq]

/-- The sheet of a table gives the same records as its objects. -/
theorem IsProper.map_filter_ofSheet {β : Type} {keep : Row → Bool} {take : Row → β}
    (proper : table.IsProper) (columnwise : IsColumnwise keep take) :
    ((Row.ofSheet (Workbook.asWritten table.sheet)).filter keep).map take =
      ((table.rows.map (·.1)).filter keep).map take := by
  rw [sheet, Workbook.asWritten, List.map_cons, Row.ofSheet, Row.map_heading proper.headings]
  exact columnwise.map_filter_ofCells proper.headings _ _ proper.rows

theorem IsProper.placeholdersOf_eq (proper : table.IsProper) :
    placeholdersOf (Row.ofSheet (Workbook.asWritten table.sheet)) =
      placeholdersOf (table.rows.map (·.1)) := by
  have same := congrArg (List.mapM id) (proper.map_filter_ofSheet placeholderOf_isColumnwise)
  rwa [List.mapM_map, List.mapM_map] at same

/-- Records of an id and a name are made of the sheet of a table as of its objects. -/
theorem IsProper.recordsOf_agree {β : Type} (proper : table.IsProper) (make : String → String → β)
    (listed : table.IsListedIn files listPath) {name : String}
    (sheetOf : table.IsSheetOf files bookPath name) :
    ∃ records,
      (do return recordsOf make (← Row.load files bookPath name)) = Except.ok records ∧
        (do return recordsOf make (← Row.load files listPath name)) = Except.ok records := by
  refine ⟨recordsOf make (table.rows.map (·.1)), ?_, ?_⟩
  · rw [sheetOf.load_eq]
    exact congrArg Except.ok (proper.map_filter_ofSheet (idAndName_isColumnwise make))
  · rw [listed.load_eq]
    rfl

/-- The catalogues read from a workbook that holds a table are those read from the JSON list of
its objects. -/
theorem workbook_agrees_with_list (proper : table.IsProper)
    (listed : table.IsListedIn files listPath) :
    (table.IsSheetOf files bookPath placeholderSheet →
      loadPlaceholders files bookPath = loadPlaceholders files listPath ∧
      ((∃ placeholders, loadPlaceholders files listPath = .ok placeholders) ∨
        ∃ rejection, loadPlaceholders files listPath = .error (.rejected rejection))) ∧
    (table.IsSheetOf files bookPath fieldTypeSheet →
      ∃ types, loadFieldTypes files bookPath = .ok types ∧
        loadFieldTypes files listPath = .ok types) ∧
    (table.IsSheetOf files bookPath placeholderTypeSheet →
      ∃ types, loadPlaceholderTypes files bookPath = .ok types ∧
        loadPlaceholderTypes files listPath = .ok types) := by
  refine ⟨?_, ?_, ?_⟩
  · intro sheetOf
    have agree : loadPlaceholders files bookPath = loadPlaceholders files listPath := by
      rw [loadPlaceholders, loadPlaceholders, sheetOf.load_eq, listed.load_eq]
      simp only [bind, Except.bind, proper.placeholdersOf_eq]
    refine ⟨agree, ?_⟩
    rw [loadPlaceholders, listed.load_eq]
    simp only [bind, Except.bind]
    cases placeholdersOf (table.rows.map (·.1)) with
    | ok placeholders => exact .inl ⟨placeholders, rfl⟩
    | error rejection => exact .inr ⟨rejection, rfl⟩
  · exact proper.recordsOf_agree FieldType.mk listed
  · exact proper.recordsOf_agree PlaceholderType.mk listed

/-- A table with a number for an id, an empty name and two options, and with a row in which
nothing stands. -/
def sampleTable : Table where
  headings := ["id", "full_tag_name", "name", "options"]
  rows :=
    [([("id", .int 7), ("full_tag_name", .str " F"), ("name", .str ""),
        ("options", .arr [.str "A", .str "B C"])],
      [.int 7, .str " F", .str "", .str "A ; B C"]),
    ([("id", .str ""), ("name", .null)], [.str "", .null])]

/-- The sample as a JSON text. -/
def sampleText : String :=
  "[\x7b\"id\": 7, \"full_tag_name\": \" F\", \"name\": \"\", \"options\": [\"A\", \"B C\"]\x7d, "
    ++ "\x7b\"id\": \"\", \"name\": null\x7d]"

/-- A workbook with the sample in each sheet. -/
def sampleBook : Workbook where
  sheets := [placeholderSheet, fieldTypeSheet, placeholderTypeSheet].map (·, sampleTable.sheet)

/-- The sample in a JSON file and in a workbook. -/
def sampleFiles : Files where
  contents := [("list.json", .bytes (Utf8.encodeString sampleText)),
    ("book.xlsx", .workbook sampleBook)]

theorem sampleTable_isProper : sampleTable.IsProper where
  headings := ⟨by decide, by decide, by decide⟩
  rows := by
    have nothing : Text.AllBlank [] := List.forall_mem_nil _
    have space : Text.AllBlank [' '] := List.forall_mem_singleton.mpr (by decide)
    have lists : Lists "A ; B C" ["A", "B C"] :=
      ⟨["A ".toList, " B C".toList],
        .cons ⟨[], [' '], nothing, space, by decide⟩
          (.cons ⟨[' '], [], space, nothing, by decide⟩ .nil), by decide⟩
    have listable : ∀ option ∈ ["A", "B C"], IsListable option :=
      List.forall_mem_cons.mpr ⟨⟨by decide, by decide, by decide⟩,
        List.forall_mem_singleton.mpr ⟨by decide, by decide, by decide⟩⟩
    have named : ∀ entry ∈ sampleTable.rows, ∀ name ∈ entry.1.map (·.1),
        name ∈ sampleTable.headings := by decide
    refine fun entry entryMem => ⟨?_, fun name noHeading =>
      Json.field?_eq_none fun isName => noHeading (named entry entryMem name isName)⟩
    intro index name name_eq
    rcases List.mem_pair.mp entryMem with rfl | rfl
    · match index, name_eq with
      | 0, rfl | 1, rfl | 2, rfl => exact .value _
      | 3, rfl => exact .options rfl listable lists
    · match index, name_eq with
      | 0, rfl | 1, rfl | 2, rfl | 3, rfl => exact .value _

theorem sampleTable_agrees :
    loadPlaceholders sampleFiles (.ofString "book.xlsx") =
        loadPlaceholders sampleFiles (.ofString "list.json") ∧
      (∃ types, loadFieldTypes sampleFiles (.ofString "book.xlsx") = .ok types ∧
        loadFieldTypes sampleFiles (.ofString "list.json") = .ok types) ∧
      ∃ types, loadPlaceholderTypes sampleFiles (.ofString "book.xlsx") = .ok types ∧
        loadPlaceholderTypes sampleFiles (.ofString "list.json") = .ok types := by
  have listed : sampleTable.IsListedIn sampleFiles (.ofString "list.json") :=
    ⟨by decide +kernel, .bytes (Utf8.encodeString sampleText), sampleText, by decide +kernel,
      by decide +kernel, by decide +kernel⟩
  have sheetOf : ∀ name ∈ [placeholderSheet, fieldTypeSheet, placeholderTypeSheet],
      sampleTable.IsSheetOf sampleFiles (.ofString "book.xlsx") name := by
    have rows_eq : ∀ name ∈ [placeholderSheet, fieldTypeSheet, placeholderTypeSheet],
        sampleBook.rows? name = some (Workbook.asWritten sampleTable.sheet) := by
      decide +kernel
    exact fun name nameMem =>
      ⟨by decide +kernel, sampleBook, by decide +kernel, rows_eq name nameMem⟩
  obtain ⟨placeholders, fieldTypes, placeholderTypes⟩ :=
    workbook_agrees_with_list sampleTable_isProper listed
  exact ⟨(placeholders (sheetOf _ (by decide))).1, fieldTypes (sheetOf _ (by decide)),
    placeholderTypes (sheetOf _ (by decide))⟩

end Table

end Stencil
