import Stencil.Catalog.Workbook
import Stencil.Package.Archive
import Stencil.Title

/-!
# Stored files

The files that a catalogue, a layout or a template is read from.  A file holds
plain bytes, a workbook or a package.  Files are found by path, whatever the way
in which the path is written.
-/

namespace Stencil

/-- The report of a folder where a file is expected. -/
def folderText (path : String) : String :=
  "[Errno 21] Is a directory: " ++ Text.quoted path

/-- The content of a file. -/
inductive FileContent where
  | bytes (content : Bytes)
  | workbook (content : Workbook)
  | package (content : Package)
  deriving DecidableEq, Repr, Inhabited

namespace FileContent

/-- The text that a file holds.  A workbook or an archive with entries is not text. -/
def text? : FileContent → Option String
  | bytes content => Utf8.decodeString? content
  | workbook _ => none
  | package (.raw content) => Utf8.decodeString? content
  | package (.archive archive) =>
    if archive.entries.isEmpty then Utf8.decodeString? Package.emptyRecord else none

/-- A file as a package. -/
def toPackage : FileContent → Package
  | bytes content => .raw content
  | package content => content
  | workbook _ => .archive { entries := [("[Content_Types].xml", []), ("xl/workbook.xml", [])] }

end FileContent

/-- Files by name, and folders that are there even if none of the files is in them. -/
structure Files where
  contents : List (String × FileContent) := []
  folders : List FilePath := []
  deriving DecidableEq, Repr, Inhabited

namespace Files

/-- The content of the file at a path. -/
def find? (files : Files) (path : FilePath) : Option FileContent :=
  (files.contents.find? fun file => FilePath.ofString file.1 == path).map (·.2)

/-- Tells whether a path leads into a folder: a known one, one that holds files, or the
one in which all of them are. -/
def hasFolder (files : Files) (path : FilePath) : Bool :=
  files.folders.contains path || !path.isAbsolute && (path.components.isEmpty ||
    files.contents.any fun file =>
      let components := (FilePath.ofString file.1).components
      path.components.isPrefixOf components && path.components.length < components.length)

/-- Tells whether a path leads beyond a file, as if the file were a folder. -/
def leadsBeyondFile (files : Files) (path : FilePath) : Bool :=
  files.contents.any fun file =>
    let own := FilePath.ofString file.1
    own.isAbsolute == path.isAbsolute && own.components.isPrefixOf path.components
      && own.components.length < path.components.length

end Files

end Stencil
