import Stencil.Catalog.Row
import Stencil.Placeholder.Basic

/-!
# Catalogues

Three catalogues are read from rows: the registered placeholders, the value types
and the categories.  Rows come from hand-kept tables, so a row without tag or id
is passed over, options may be listed in one text, and a flag may be written as a
word.
-/

namespace Stencil

namespace Catalog

/-- The sheet of the registered placeholders. -/
def placeholderSheet : String := "Placeholders"

/-- The sheet of the value types. -/
def fieldTypeSheet : String := "FieldTypes"

/-- The sheet of the categories. -/
def placeholderTypeSheet : String := "PlaceholderTypes"

/-- The character that parts options in one text. -/
def optionSeparator : Char := ';'

/-- The value under a name in a row, null when there is none. -/
def cell (row : Row) (name : String) : Json :=
  (Json.field? row name).getD .null

/-- The options that a cell lists. -/
def optionsOf : Json → List String
  | .null => []
  | .arr items => items.map Json.plain
  | value =>
    let parts := Text.splitWhere (· == optionSeparator) value.plain.toList
    ((parts.map Text.trim).filter fun part => !part.isEmpty).map String.ofList

/-- The words that set a flag. -/
def flagWords : List String := ["true", "yes", "1", "y"]

/-- Tells whether a cell sets a flag. -/
def isSet : Json → Bool
  | .str text => flagWords.contains (String.ofList (Text.lower (Text.trim text.toList)))
  | value => value.isGiven

/-- The tag in a row. -/
def tagOf (row : Row) : String :=
  let value := cell row "full_tag_name"
  if value.isGiven then Text.trimmed value.plain else ""

/-- The placeholder of a row with a tag. -/
def placeholderOf (row : Row) : Except Rejection Placeholder :=
  Placeholder.ofFields
    [("full_tag_name", .str (tagOf row)),
      ("placeholder_type_id", cell row "placeholder_type_id"),
      ("field_type_id", cell row "field_type_id"),
      ("name", (cell row "name").orElse (.str "")),
      ("required", .bool (isSet (cell row "required"))),
      ("options", .arr ((optionsOf (cell row "options")).map .str)),
      ("order", (cell row "order").orElse (.int 0))]

/-- The placeholders of rows; rows without tag are passed over. -/
def placeholdersOf (rows : List Row) : Except Rejection (List Placeholder) :=
  (rows.filter fun row => tagOf row != "").mapM placeholderOf

/-- Tells whether a row has an id. -/
def hasId (row : Row) : Bool :=
  let id := cell row "id"
  id != .null && id != .str ""

/-- The id and the name in a row. -/
def idAndName (row : Row) : String × String :=
  ((cell row "id").plain, ((cell row "name").orElse (.str "")).plain)

/-- The records that are made of the ids and the names in rows; rows without id are passed
over. -/
def recordsOf {α : Type} (make : String → String → α) (rows : List Row) : List α :=
  (rows.filter hasId).map fun row => make (idAndName row).1 (idAndName row).2

/-- The value types of rows. -/
def fieldTypesOf (rows : List Row) : List FieldType :=
  recordsOf FieldType.mk rows

/-- The categories of rows. -/
def placeholderTypesOf (rows : List Row) : List PlaceholderType :=
  recordsOf PlaceholderType.mk rows

/-- Reads the registered placeholders. -/
def loadPlaceholders (files : Files) (path : FilePath) :
    Except CatalogError (List Placeholder) := do
  match placeholdersOf (← Row.load files path placeholderSheet) with
  | .ok placeholders => return placeholders
  | .error rejection => throw (.rejected rejection)

/-- Reads the value types. -/
def loadFieldTypes (files : Files) (path : FilePath) : Except CatalogError (List FieldType) := do
  return fieldTypesOf (← Row.load files path fieldTypeSheet)

/-- Reads the categories. -/
def loadPlaceholderTypes (files : Files) (path : FilePath) :
    Except CatalogError (List PlaceholderType) := do
  return placeholderTypesOf (← Row.load files path placeholderTypeSheet)

end Catalog

/-- What was fetched of the three catalogues: the entries of each, or why it could
not be fetched. -/
structure Catalogs where
  placeholders : Except String (List Placeholder) := .ok []
  placeholderTypes : Except String (List PlaceholderType) := .ok []
  fieldTypes : Except String (List FieldType) := .ok []
  deriving Inhabited

namespace Catalogs

/-- Where the files of the catalogues are; an empty path stands for none. -/
structure Paths where
  placeholders : String := ""
  placeholderTypes : String := ""
  fieldTypes : String := ""
  deriving DecidableEq, Repr, Inhabited

/-- Fetches one catalogue; without a path it is empty. -/
def fetchAt {α : Type} (load : FilePath → Except CatalogError (List α)) (path : String) :
    Except String (List α) :=
  if path == "" then .ok []
  else
    match load (FilePath.ofString path) with
    | .ok entries => .ok entries
    | .error error => .error error.message

/-- Fetches the catalogues from files. -/
def ofFiles (files : Files) (paths : Paths) : Catalogs :=
  { placeholders := fetchAt (Catalog.loadPlaceholders files) paths.placeholders
    placeholderTypes := fetchAt (Catalog.loadPlaceholderTypes files) paths.placeholderTypes
    fieldTypes := fetchAt (Catalog.loadFieldTypes files) paths.fieldTypes }

/-- The catalogues when fetching fails as a whole. -/
def broken (reason : String) : Catalogs :=
  ⟨.error reason, .error reason, .error reason⟩

/-- The entries that were fetched. -/
def entriesOf {α : Type} : Except String (List α) → List α
  | .ok entries => entries
  | .error _ => []

/-- The reason why a catalogue could not be fetched, under its name. -/
def errorOf {α : Type} (name : String) : Except String (List α) → List (String × String)
  | .ok _ => []
  | .error reason => [(name, reason)]

/-- The catalogues that could not be fetched with the reasons, in the order in which
they are fetched. -/
def errors (catalogs : Catalogs) : List (String × String) :=
  errorOf "placeholders" catalogs.placeholders
    ++ errorOf "placeholder_types" catalogs.placeholderTypes
    ++ errorOf "field_types" catalogs.fieldTypes

end Catalogs

end Stencil
