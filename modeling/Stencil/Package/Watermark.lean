import Stencil.Package.Archive
import Stencil.Text.Split

/-!
# Watermarks

A watermark is written over the watermark token in the text of one part.  All
other entries, and the package if it does not list the part, stay as they are.
-/

namespace Stencil

/-- Why a watermark cannot be written. -/
inductive WatermarkError where
  | fileMissing (path : String)
  | notPackage
  /-- The part does not hold text. -/
  | notText
  deriving DecidableEq, Repr

/-- The text of a report on bytes that form no archive. -/
def notArchiveText : String := "File is not a zip file"

namespace Watermark

/-- The token that a watermark replaces. -/
def token : List Char := '{' :: "Watermark".toList ++ ['}']

/-- Writes a watermark into the content of a part. -/
def stampContent (watermark : List Char) (content : Bytes) : Option Bytes :=
  (Utf8.decode? content).map fun text => Utf8.encode (Text.replaceAll token watermark text)

/-- Writes a watermark into a part of an archive. -/
def stampArchive (archive : Archive) (watermark : List Char) (part : String) :
    Except WatermarkError Archive :=
  match stampContent watermark (archive.contentOf part) with
  | none => .error .notText
  | some stamped =>
    .ok { entries := archive.entries.map fun (name, _) =>
            (name, if name == part then stamped else archive.contentOf name) }

/-- Writes a watermark into a part of a package. -/
def stamp (package : Package) (watermark part : String) : Except WatermarkError Package :=
  match package.archive? with
  | none => .error .notPackage
  | some archive =>
    if archive.lists part then
      match stampArchive archive watermark.toList part with
      | .ok stamped => .ok (.archive stamped)
      | .error refused => .error refused
    else .ok package

/-- Writes a watermark into a part of a template. -/
def stampSource (source : Source) (watermark part : String) : Except WatermarkError Package :=
  match source with
  | .memory package => stamp package watermark part
  | .file path none => .error (.fileMissing path)
  | .file _ (some package) => stamp package watermark part

end Watermark

end Stencil
