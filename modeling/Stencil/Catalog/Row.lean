import Stencil.Json.Reader
import Stencil.Record
import Stencil.Storage
import Stencil.Text.Case

/-!
# Catalogue rows

A catalogue is a list of rows, objects with named fields.  It is a JSON file that
holds the list, or an object with the list under the name of the sheet; or it is a
sheet of a workbook with the names of the fields in its first row.
-/

namespace Stencil

/-- What cannot be read as a catalogue although it is there. -/
inductive NoCatalog where
  /-- A file or a folder with an extension that no catalogue has. -/
  | ofExtension (extension : String)
  /-- A folder with the extension of a catalogue. -/
  | folder
  deriving DecidableEq, Repr

/-- Why a catalogue cannot be read. -/
inductive CatalogError where
  | notFound (path : String)
  | notList (path : String)
  | unsupported (found : NoCatalog) (path : String)
  | noSheet (sheet path : String)
  /-- The file is no JSON text. -/
  | notJson
  /-- The bytes of the file are no text. -/
  | notText
  /-- The bytes of a workbook form no archive. -/
  | notArchive
  /-- The archive lacks an entry that every workbook has. -/
  | missingEntry (name : String)
  /-- The archive is of another kind. -/
  | noWorkbook
  /-- A row does not make up a record. -/
  | rejected (rejection : Rejection)
  deriving DecidableEq, Repr

/-- The text of a catalogue error.  Errors within a text or a record are reported by
their kind. -/
def CatalogError.message : CatalogError → String
  | .notFound path => "Catalog not found at " ++ path
  | .notList path => "Expected a list of records in " ++ path
  | .unsupported (.ofExtension extension) path =>
    "Unsupported catalog format '" ++ extension ++ "' for " ++ path
  | .unsupported .folder path => folderText path
  | .noSheet sheet path => "Sheet '" ++ sheet ++ "' not found in " ++ path
  | .notJson => "<JSONDecodeError>"
  | .notText => "<UnicodeDecodeError>"
  | .notArchive => "File is not a zip file"
  | .missingEntry name =>
    Text.quoted ("There is no item named " ++ Text.quoted name ++ " in the archive")
  | .noWorkbook => "File contains no valid workbook part"
  | .rejected _ => "<ValidationError>"

/-- A row of a catalogue. -/
abbrev Row := Record.Fields

namespace Row

/-- The objects of a list. -/
def objectsOf (items : List Json) : List Row :=
  items.filterMap fun item =>
    match item with
    | .obj fields => some fields
    | _ => none

/-- The list that a JSON catalogue holds. -/
def listIn? (sheet : String) : Json → Option (List Json)
  | .arr items => some items
  | .obj fields =>
    match (Json.field? fields sheet).getD (.arr []) with
    | .arr items => some items
    | _ => none
  | _ => none

/-- The rows of a JSON catalogue. -/
def ofJsonFile (path sheet : String) (content : FileContent) : Except CatalogError (List Row) :=
  match content.text? with
  | none => .error .notText
  | some text =>
    match Json.parse? text with
    | none => .error .notJson
    | some value =>
      match listIn? sheet value with
      | some items => .ok (objectsOf items)
      | none => .error (.notList path)

/-- The name of the field whose column a cell heads. -/
def heading (cell : Json) : String :=
  if cell.isGiven then Text.trimmed cell.plain else ""

/-- Tells whether a row has nothing in it. -/
def isBlank (cells : List Json) : Bool :=
  cells.all fun cell => cell == .null || cell == .str ""

/-- The fields of a row below headings; columns without heading are dropped. -/
def ofCells (headings : List String) (cells : List Json) : Row :=
  Json.distinctFields ((headings.zip cells).filter fun (name, _) => name != "")

/-- The rows of a sheet, the first row of which heads the columns. -/
def ofSheet : List (List Json) → List Row
  | [] => []
  | first :: rest =>
    (rest.filter fun cells => !isBlank cells).map (ofCells (first.map heading))

/-- The rows of a sheet of a workbook file. -/
def ofWorkbookFile (path sheet : String) (content : FileContent) :
    Except CatalogError (List Row) :=
  match content with
  | .workbook workbook =>
    match workbook.rows? sheet with
    | some rows => .ok (ofSheet rows)
    | none => .error (.noSheet sheet path)
  | other =>
    match other.toPackage.archive? with
    | none => .error .notArchive
    | some archive =>
      if archive.lists "[Content_Types].xml" then .error .noWorkbook
      else .error (.missingEntry "[Content_Types].xml")

/-- Tells what a folder is refused for where a catalogue is expected. -/
def ofFolder (extension : String) : NoCatalog :=
  if [".json", ".xlsx", ".xlsm"].contains extension then .folder else .ofExtension extension

/-- Reads the rows of a catalogue; the extension of the file tells how. -/
def load (files : Files) (path : FilePath) (sheet : String) : Except CatalogError (List Row) :=
  let text := path.text
  let extension := String.ofList (Text.lower path.extension)
  match files.find? path with
  | none =>
    if files.hasFolder path then .error (.unsupported (ofFolder extension) text)
    else .error (.notFound text)
  | some content =>
    if extension == ".json" then ofJsonFile text sheet content
    else if extension == ".xlsx" || extension == ".xlsm" then ofWorkbookFile text sheet content
    else .error (.unsupported (.ofExtension extension) text)

end Row

end Stencil
