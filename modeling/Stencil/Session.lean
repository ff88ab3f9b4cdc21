import Stencil.Arrangement.Journal
import Stencil.Catalog.Basic
import Stencil.Package.Extraction
import Stencil.Package.Opening
import Stencil.Schema.Compile

/-!
# Upload sessions

A session takes uploads of templates.  An upload reads the template while the
catalogues are fetched; then the tokens are extracted and routed, and an operator
gets a fresh arrangement of the placeholders to enter.  The generic data of all
uploads accumulates.

An upload either changes the session as a whole or leaves it as it was.  When the
session was closed, what was read is discarded.
-/

namespace Stencil

/-- What happens when a template is uploaded. -/
structure Upload where
  /-- The bytes of the template, or the reason why they could not be read. -/
  read : Except String Package
  watermark : String := ""
  catalogs : Catalogs := {}
  /-- Whether the session is closed while the template is read. -/
  closesMeanwhile : Bool := false
  deriving Inhabited

/-- Why an upload fails. -/
inductive UploadError where
  | part (error : PartError)
  /-- The part for the watermark does not hold text. -/
  | notText
  /-- A part of the stamped template is not well-formed. -/
  | malformed
  deriving DecidableEq, Repr

/-- What is resolved for an uploaded template. -/
structure UploadResult where
  extraction : Extraction
  routing : Routing
  fieldTypes : List FieldType
  placeholderTypes : List PlaceholderType
  catalogErrors : List (String × String)
  validationError : Option String
  deriving DecidableEq, Repr, Inhabited

/-- A session. -/
structure Session where
  settings : Settings := {}
  genericList : List Placeholder := []
  fieldTypes : List FieldType := []
  placeholderTypes : List PlaceholderType := []
  journal : Option Journal := none
  document : Option Package := none
  isAlive : Bool := true
  deriving DecidableEq, Repr, Inhabited

/-- Why a schema cannot be compiled in a session. -/
inductive SessionError where
  | noTemplate
  | rejected (rejection : Rejection)
  | refused (error : CommandError)
  deriving DecidableEq, Repr

/-- The report of a session that has no template yet. -/
def noTemplateText : String := "No template has been processed in this session"

namespace Session

/-- The number of commands that a session keeps. -/
def historyLimit : Nat := 200

/-- Writes a watermark into an uploaded template and checks the result.  Bytes that
form no archive stay as they are. -/
def stamped (settings : Settings) (package : Package) (watermark : String) :
    Except UploadError (Package × Option String) :=
  match Watermark.stamp package watermark settings.watermarkPart with
  | .error .notText => .error .notText
  | .error _ => .ok (package, some ("Invalid document format: " ++ notArchiveText))
  | .ok stamped =>
    match OpenPackage.validate (.memory stamped) with
    | .ok report => .ok (stamped, report)
    | .error _ => .error .malformed

/-- The template as it is kept, with a report when a watermark made it invalid. -/
def prepared (settings : Settings) (package : Package) (watermark : String) :
    Except UploadError (Package × Option String) :=
  if watermark == "" then .ok (package, none) else stamped settings package watermark

/-- Resolves a template that was read. -/
def resolve (session : Session) (package : Package) (upload : Upload) :
    Except UploadError (Session × UploadResult) := do
  let (document, validationError) ← prepared session.settings package upload.watermark
  let extraction ← match Extraction.ofSource (.memory document) with
    | .ok extraction => Except.ok extraction
    | .error error => .error (UploadError.part error)
  let routing := Routing.ofPlaceholders (Placeholder.ofTokenLists [extraction.tokens])
    (Catalogs.entriesOf upload.catalogs.placeholders) session.settings session.genericList
  let fieldTypes := Catalogs.entriesOf upload.catalogs.fieldTypes
  let placeholderTypes := Catalogs.entriesOf upload.catalogs.placeholderTypes
  let next := { session with
    genericList := Placeholder.merge (session.genericList ++ routing.genericList)
    fieldTypes
    placeholderTypes
    journal := some (Journal.create routing.placeholders (some session.settings) historyLimit)
    document := some document }
  return (next, { extraction, routing, fieldTypes, placeholderTypes, validationError
                  catalogErrors := upload.catalogs.errors })

/-- Marks the session closed; uploads that are under way discard what they read. -/
def close (session : Session) : Session :=
  { session with isAlive := false }

/-- Uploads a template.  There is no result when the session was closed. -/
def process (session : Session) (upload : Upload) :
    Except UploadError (Session × Option UploadResult) :=
  let session := if upload.closesMeanwhile then session.close else session
  if !session.isAlive then .ok (session, none)
  else
    match upload.read with
    | .error reason => .error (.part (.template (.unreadable reason)))
    | .ok package =>
      match session.resolve package upload with
      | .ok (next, result) => .ok (next, some result)
      | .error error => .error error

/-- The journal of the template that was processed last. -/
def organizer (session : Session) : Except SessionError Journal :=
  match session.journal with
  | some journal => .ok journal
  | none => .error .noTemplate

/-- Applies a command to the arrangement. -/
def dispatch (session : Session) (fields : Record.Fields) : Except SessionError Session := do
  match (← session.organizer).dispatch fields with
  | .ok journal => return { session with journal := some journal }
  | .error error => throw (.refused error)

/-- The steps to compile, with the generic data in front when it is asked for. -/
def stepsToCompile (session : Session) (steps : List Step) (includesGeneric : Bool) : List Step :=
  if includesGeneric then Schema.withGeneric steps session.genericList session.fieldTypes else steps

/-- Compiles the steps of a session.  Generic data is included as asked for, or else in
a preview. -/
def compile (session : Session) (documentId : String) (preview : Bool)
    (includesGeneric : Option Bool) (today : Date) : Except SessionError Schema := do
  let steps := (← session.organizer).arrangement.steps
  let context : CompileContext :=
    { preview, fieldTypes := session.fieldTypes, settings := session.settings, today }
  let chosen := session.stepsToCompile steps (includesGeneric.getD preview)
  match Schema.compile context documentId chosen with
  | .ok schema => return schema
  | .error rejection => throw (.rejected rejection)

end Session

end Stencil
