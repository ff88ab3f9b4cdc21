import Std.Time.Zoned
import Stencil.Program

/-!
# The command line on a machine

Runs the program on the files of the machine.  A template is a folder here that
holds the entries of a package as files, or a file whose bytes form no archive; a
filled template is written as such a folder.  All else is plain files.  What the
program does with them is decided by `Program.run`.
-/

namespace Stencil.Machine

/-- The bytes of a file, unless it cannot be read. -/
def bytesAt? (path : String) : IO (Option Bytes) := do
  let .ok content ← (IO.FS.readBinFile path).toBaseIO | return none
  return some content.toList

/-- The names of the files below a folder, relative to it, in order. -/
def namesBelow (folder : String) : IO (List String) := do
  let root := (← IO.currentDir) / folder
  let mut names := []
  for path in ← root.walkDir do
    unless ← path.isDir do
      names := (path.toString.drop (root.toString.length + 1)).toString :: names
  return names.mergeSort fun s t => !(t < s)

/-- The package that a folder holds. -/
def archiveAt (folder : String) : IO Archive := do
  let mut entries := []
  for name in ← namesBelow folder do
    if let some content ← bytesAt? (folder ++ "/" ++ name) then
      entries := (name, content) :: entries
  return { entries := entries.reverse }

/-- What is at a path: a file, a folder as a package, or nothing. -/
def contentAt? (path : String) : IO (Option FileContent) := do
  if ← ((← IO.currentDir) / path).isDir then
    return some (.package (.archive (← archiveAt path)))
  return (← bytesAt? path).map .bytes

/-- The folder in which a path lies, if it is there. -/
def folderOf? (path : String) : IO (Option FilePath) := do
  let path := FilePath.ofString path
  let folder := { path with components := path.components.dropLast }
  let isThere ← ((← IO.currentDir) / folder.text).isDir
  return if isThere then some folder else none

/-- The files that the arguments name, and the folders of those to be written. -/
def filesFor (arguments : Arguments) : IO Files := do
  let read := [arguments.template, arguments.placeholders, arguments.fieldTypes,
    arguments.placeholderTypes, arguments.steps] ++ arguments.envFile.toList
  let contents ← (read.filter (· != "")).mapM fun path => do
    return (← contentAt? path).map fun content => (path, content)
  let folders ← [arguments.output, arguments.previewDocument].mapM folderOf?
  return { contents := contents.reduceOption, folders := folders.reduceOption }

/-- The variables for settings that are set. -/
def environment : IO Settings.Variables.Environment := do
  let values ← Settings.Variables.variableNames.mapM fun name => do
    return (← IO.getEnv name).map fun value => (name, value)
  return values.reduceOption

/-- The date of today. -/
def today : IO Date := do
  let date ← Std.Time.PlainDate.now
  return ⟨date.year.toInt.toNat, date.month.toNat, date.day.toNat⟩

/-- Writes the entries of a package as files into a folder. -/
def writeArchive (folder : String) (archive : Archive) : IO Unit := do
  for (name, content) in archive.entries do
    let target := (← IO.currentDir) / folder / name
    if let some parent := target.parent then IO.FS.createDirAll parent
    IO.FS.writeBinFile target ⟨content.toArray⟩

/-- Writes what a run leaves at a path. -/
def writeAt (path : String) : Written → IO Unit
  | .text content => IO.FS.writeFile path content
  | .document content => writeArchive path content.toArchive

/-- The exit code of a run; an error that was not handled is told about. -/
def finish : Ending → IO UInt32
  | .exit code => return UInt32.ofNat code
  | .escape error => do
    IO.eprintln error.message
    return 1

end Stencil.Machine

open Stencil

/-- Runs the program with the arguments of the command line. -/
def main (texts : List String) : IO UInt32 := do
  let files ← match CommandLine.parse texts with
    | .run arguments => Machine.filesFor arguments
    | .help => pure {}
    | .misuse => do
      IO.eprint CommandLine.helpText
      pure {}
  let (ending, report) := Program.run texts
    { files, environment := ← Machine.environment, today := ← Machine.today }
  report.log.forM IO.eprintln
  report.files.forM fun (path, content) => Machine.writeAt path content
  IO.print report.printed
  Machine.finish ending
