import Stencil.Json.Printer
import Stencil.Text.Split

/-!
# Paths and titles

The name of a file within a path, its stem and its extension, and the title of a
document made from the name of the uploaded file and a revision.  A path is a
list of components parted by slashes; empty components and single dots count for
nothing.
-/

namespace Stencil

/-- A path: whether it starts at the root, and its components. -/
structure FilePath where
  isAbsolute : Bool
  components : List (List Char)
  deriving DecidableEq, Repr, Inhabited

namespace FilePath

open Stencil.Text

/-- Reads a path. -/
def ofChars (cs : List Char) : FilePath :=
  { isAbsolute := cs.head? == some '/'
    components := (splitWhere (· == '/') cs).filter fun part => !part.isEmpty && part != ['.'] }

/-- Reads a path. -/
def ofString (path : String) : FilePath :=
  ofChars path.toList

/-- The text of a path; the path without components is a single dot. -/
def chars (path : FilePath) : List Char :=
  if path.isAbsolute then
    '/' :: join ['/'] path.components
  else if path.components.isEmpty then ['.']
  else join ['/'] path.components

/-- The text of a path. -/
def text (path : FilePath) : String :=
  String.ofList path.chars

/-- The last component of a path. -/
def fileName (path : FilePath) : List Char :=
  path.components.getLast?.getD []

/-- A file name cut before its last dot, when the dot neither begins nor ends it. -/
def splitName (name : List Char) : List Char × List Char :=
  let extension := (name.reverse.takeWhile (· != '.')).reverse
  let front := name.take (name.length - extension.length - 1)
  if extension.length < name.length && !extension.isEmpty && !front.isEmpty then
    (front, '.' :: extension)
  else (name, [])

/-- The file name without its extension. -/
def stem (path : FilePath) : List Char :=
  (splitName path.fileName).1

/-- The extension of the file name with its dot, or nothing. -/
def extension (path : FilePath) : List Char :=
  (splitName path.fileName).2

end FilePath

/-- The title of a document: the stem of its file's name and, when there is a
revision, its text. -/
def documentTitle (fileName : String) (revision : Json) : String :=
  let cs := fileName.toList
  let stem := if cs.contains '.' then (FilePath.ofChars cs).stem else cs
  if revision == .null || revision == .str "" then String.ofList stem
  else String.ofList stem ++ "_Rev_" ++ revision.plain

end Stencil
