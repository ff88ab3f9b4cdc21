import Stencil.CommandLine
import Stencil.Layout
import Stencil.Schema.FillValues
import Stencil.Schema.Wire
import Stencil.Session
import Stencil.Settings.Variables
import Stencil.Template

/-!
# The program

A run of the program reads a template and catalogues, lays the fields out into
steps and writes the schema, and possibly the template filled with a preview.  It
is a function of the arguments, the files, the variables that are set and the
date.  Its outcome is what it printed, logged and wrote, and how it ended: with an
exit code, or with an error that it does not handle.
-/

namespace Stencil

open Settings.Variables (Environment VariableError loadSettings)

/-- An error that the program does not handle. -/
inductive Escape where
  | malformed
  | missingEntry (error : OpenError)
  | layout (error : LayoutError)
  | noBody
  /-- A folder stands where a file is expected. -/
  | isFolder
  /-- A file stands where a folder is expected. -/
  | isNoFolder
  /-- The bytes of the settings file are no text. -/
  | notText
  /-- The settings file sets a variable that cannot be set. -/
  | unsettable (error : VariableError)
  deriving DecidableEq, Repr

/-- What is told of an error that the program does not handle. -/
def Escape.message : Escape → String
  | .malformed => "A part of the template is not well-formed."
  | .missingEntry error => error.message
  | .layout error => error.message
  | .noBody => "The main part of the template has no body."
  | .isFolder => "There is a folder where a file is expected."
  | .isNoFolder => "There is a file where a folder is expected."
  | .notText => "The settings file is no text."
  | .unsettable error => error.message

/-- How a run ends. -/
inductive Ending where
  | exit (code : Nat)
  | escape (error : Escape)
  deriving DecidableEq, Repr

/-- What a run writes into a file. -/
inductive Written where
  | text (content : String)
  | document (content : Word.Document)
  deriving Inhabited

/-- What a run has printed, logged and written so far. -/
structure Report where
  printed : String := ""
  log : List String := []
  files : List (String × Written) := []
  deriving Inhabited

/-- The surroundings of a run. -/
structure Surroundings where
  files : Files := {}
  environment : Environment := []
  today : Date := ⟨2024, 3, 15⟩
  deriving Inhabited

namespace Program

/-- A part of a run: it adds to the report and may end the run. -/
abbrev Run (α : Type) := ExceptT Ending (StateM Report) α

/-- Logs a line. -/
def logLine (line : String) : Run Unit :=
  modify fun report => { report with log := report.log ++ [line] }

/-- Logs a warning. -/
def warn (text : String) : Run Unit :=
  logLine ("WARNING " ++ text)

/-- Logs an error and ends the run. -/
def fail {α : Type} (text : String) : Run α := do
  logLine ("ERROR " ++ text)
  throw (.exit 1)

/-- Ends the run because an input cannot be used. -/
def failInput {α : Type} (text : String) : Run α :=
  fail ("Could not load input: " ++ text)

/-- Ends the run because the template cannot be used. -/
def rejectTemplate {α : Type} (text : String) : Run α :=
  fail ("Template rejected: " ++ text)

/-- Ends the run with an error that is not handled. -/
def escape {α : Type} (error : Escape) : Run α :=
  throw (.escape error)

/-- The kinds by which errors within texts and records are reported. -/
def notTextReport : String := "<UnicodeDecodeError>"

/-- The kind by which errors in a JSON text are reported. -/
def notJsonReport : String := "<JSONDecodeError>"

/-- The kind by which errors in a record are reported. -/
def rejectedReport : String := "<ValidationError>"

/-- The text of the settings file.  A file that is not there is as good as empty. -/
def settingsText (files : Files) (path : Option String) : Run (Option String) :=
  match path with
  | none => return none
  | some path =>
    if path == "" then return none
    else
      match files.find? (FilePath.ofString path) with
      | none => return none
      | some content =>
        match content.text? with
        | some text => return some text
        | none => escape .notText

/-- The settings of a run. -/
def loadedSettings (environment : Environment) (file : Option String) : Run Settings :=
  match loadSettings environment file with
  | .ok settings => return settings
  | .error error => escape (.unsettable error)

/-- Reads the bytes of the template. -/
def readTemplate (files : Files) (path : FilePath) : Except String Package :=
  match files.find? path with
  | some content => .ok content.toPackage
  | none => .error (folderText path.text)

/-- Ends the run because of a failed upload. -/
def failUpload {α : Type} : UploadError → Run α
  | .part (.template error) => rejectTemplate error.message
  | .part error => failInput (Part.errorText error)
  | .notText => failInput notTextReport
  | .malformed => escape .malformed

/-- Uploads the template and reports on what could not be read. -/
def upload (session : Session) (input : Upload) : Run Session := do
  match session.process input with
  | .error error => failUpload error
  | .ok (_, none) => throw (.exit 0)
  | .ok (next, some result) =>
    match result.validationError with
    | some text => rejectTemplate text
    | none =>
      result.catalogErrors.forM fun (name, text) =>
        warn ("Continuing without the " ++ name ++ " catalog: " ++ text)
      let failed := result.extraction.failedParts
      if !failed.isEmpty then warn ("Unreadable parts skipped: " ++ ", ".intercalate failed)
      return next

/-- Reads the values of a layout file; no path stands for an empty layout. -/
def readLayout (files : Files) (path : String) : Run (List Json) := do
  if path == "" then return []
  match files.find? (FilePath.ofString path) with
  | none =>
    if files.hasFolder (FilePath.ofString path) then escape .isFolder
    else if files.leadsBeyondFile (FilePath.ofString path) then escape .isNoFolder
    else failInput (missingFileText path)
  | some content =>
    match content.text? with
    | none => failInput notTextReport
    | some text =>
      match Json.parse? text with
      | none => failInput notJsonReport
      | some (.arr values) => return values
      | some _ => failInput ("Expected a list of steps in " ++ path)

/-- Lays the fields out into steps. -/
def arrange (a : Arrangement) (values : List Json) : Run Arrangement := do
  if values.isEmpty then return Layout.arrange (Layout.whole a) a
  let (entries, error) := Layout.readEntries values
  (Layout.reports entries a).forM warn
  match error with
  | some error => escape (.layout error)
  | none => return Layout.arrange entries a

/-- Compiles the steps of a session. -/
def compile (session : Session) (documentId : String) (preview : Bool) (today : Date) :
    Run Schema :=
  match session.compile documentId preview none today with
  | .ok schema => return schema
  | .error _ => failInput rejectedReport

/-- Writes a file; the folder for it must be there.  `shown` is the path as reports show
it. -/
def write (files : Files) (path shown : String) (content : Written) : Run Unit := do
  let path := FilePath.ofString path
  let folder : FilePath := { path with components := path.components.dropLast }
  if files.hasFolder path then escape .isFolder
  if files.leadsBeyondFile path then escape .isNoFolder
  if !files.hasFolder folder then failInput (missingFileText shown)
  modify fun report => { report with files := report.files ++ [(path.text, content)] }

/-- Writes the schema to a file, or prints it. -/
def writeSchema (files : Files) (output : String) (schema : Schema) : Run Unit :=
  if output == "" then
    modify fun report => { report with printed := report.printed ++ schema.text ++ "\n" }
  else write files output (FilePath.ofString output).text (.text schema.text)

/-- Ends the run because a template cannot be filled. -/
def failFilling {α : Type} : FillError → Run α
  | .opening .malformed => escape .malformed
  | .opening error => escape (.missingEntry error)
  | .reading .noBody => escape .noBody
  | .reading (.unknownRelation id) => escape (.missingEntry (.unknownRelation id))
  | .unwritable => failInput Word.unwritableText

/-- Writes the template filled with the values of a preview, if it is asked for. -/
def writePreview (files : Files) (path : String) (session : Session) (schema : Run Schema) :
    Run Unit := do
  if path == "" then return
  let schema ← schema
  match Template.fill (.memory (session.document.getD (.raw []))) schema.fillValues with
  | .error error => failFilling error
  | .ok filled => write files path path (.document filled.document)

/-- Runs the program with its arguments. -/
def runWith (arguments : Arguments) (around : Surroundings) : Run Unit := do
  let files := around.files
  let path := FilePath.ofString arguments.template
  if arguments.template == "" || ((files.find? path).isNone && !files.hasFolder path) then
    fail ("Template file not found at " ++ arguments.template)
  let settings ← loadedSettings around.environment (← settingsText files arguments.envFile)
  let paths : Catalogs.Paths :=
    { placeholders := arguments.placeholders
      placeholderTypes := arguments.placeholderTypes
      fieldTypes := arguments.fieldTypes }
  let session ← upload { settings }
    { read := readTemplate files path
      watermark := arguments.watermark
      catalogs := Catalogs.ofFiles files paths }
  let layout ← readLayout files arguments.steps
  match session.journal with
  | none => throw (.exit 0)
  | some journal =>
    let arrangement ← arrange journal.arrangement layout
    let session := { session with journal := some { journal with arrangement } }
    let compiled := compile session arguments.documentId
    writeSchema files arguments.output (← compiled arguments.preview around.today)
    writePreview files arguments.previewDocument session (compiled true around.today)

/-- Runs the program: how it ended and what it reports. -/
def run (texts : List String) (around : Surroundings) : Ending × Report :=
  match CommandLine.parse texts with
  | .misuse => (.exit 2, {})
  | .help => (.exit 0, { printed := CommandLine.helpText })
  | .run arguments =>
    match (runWith arguments around).run.run {} with
    | (.ok (), report) => (.exit 0, report)
    | (.error ending, report) => (ending, report)

end Program

end Stencil
