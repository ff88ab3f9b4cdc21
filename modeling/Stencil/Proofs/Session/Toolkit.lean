import Stencil.Proofs.Package.Extraction
import Stencil.Proofs.Session.Transaction
import Stencil.Proofs.Stamping.Text

/-!
# Uploads with given tools

An upload leaves it to others to read and write archives, to parse markup and to open a
package as a document.  Each of these tools may fail, and an upload tells some of their
faults apart.  `Toolkit.process` is an upload with tools about which nothing is assumed: an
archive may hold entries that cannot be read or written anew, and a package may be refused
for any reason.  With the tools of this library it is `Session.process`.

The watermark is given on its own, since it need not be a text: it may hold lone halves of
characters, which cannot be encoded.
-/

namespace Stencil

/-- Why a tool does not do what it is asked for, as far as an upload tells the reasons
apart. -/
inductive ToolFault where
  /-- An archive is damaged, or is none. -/
  | damaged (report : String)
  /-- There is no file at a path. -/
  | fileMissing (path : String)
  /-- Markup is not well-formed. -/
  | malformed
  /-- A value is not of the form that it should have. -/
  | badValue (report : String)
  /-- Something is needed that is not there, or that cannot be had. -/
  | refused (report : String)
  /-- Anything else, such as an entry that is encrypted or packed in an unknown way. -/
  | unexpected
  deriving DecidableEq, Repr

/-- Why an upload with given tools fails. -/
inductive UploadFailure where
  | template (error : TemplateError)
  /-- What is to be decoded or encoded is no text. -/
  | notText
  /-- A part has a number with too many digits. -/
  | numberTooLong (digits : Nat)
  | tool (fault : ToolFault)
  deriving DecidableEq, Repr

/-- The documented way for an upload to fail is to tell why the template cannot be used. -/
def UploadFailure.isDocumented : UploadFailure → Bool
  | .template _ => true
  | _ => false

/-- A text that may hold lone halves of characters. -/
abbrev LooseText := List (Option Char)

namespace LooseText

/-- A text without lone halves. -/
def ofText (text : List Char) : LooseText :=
  text.map some

/-- The text that is encoded, if there is no lone half in it. -/
def toText? (loose : LooseText) : Option (List Char) :=
  if loose.contains none then none else some (loose.filterMap id)

theorem toText?_eq_none_iff {loose : LooseText} : loose.toText? = none ↔ none ∈ loose := by
  simp [toText?]

@[simp]
theorem toText?_ofText (text : List Char) : (ofText text).toText? = some text := by
  simp [toText?, ofText, List.filterMap_map]

end LooseText

/-- An entry as an archive lists it. -/
structure Entry where
  name : String
  /-- The method by which the content is packed. -/
  method : Nat
  deriving DecidableEq, Repr

/-- An entry whose content is packed in the usual way. -/
def Entry.deflated (name : String) : Entry :=
  ⟨name, 8⟩

@[simp]
theorem map_name_deflated (names : List String) :
    (names.map Entry.deflated).map (·.name) = names := by
  rw [List.map_map]
  exact List.map_id names

/-- What an upload leaves to others. -/
structure Toolkit where
  /-- The entries of an archive, in the order in which they are listed. -/
  entries : Package → Except ToolFault (List Entry)
  /-- The content under a name. -/
  content : Package → String → Except ToolFault Bytes
  /-- Writes an entry with a content into a new archive. -/
  write : Entry → Bytes → Except ToolFault Unit
  /-- Closes the new archive after the entries that were written. -/
  close : List (Entry × Bytes) → Except ToolFault Package
  /-- The tree of a part. -/
  parse : Bytes → Except ToolFault Xml.Node
  /-- Opens a package as a document. -/
  opens : Package → Except ToolFault Unit

namespace ToolFault

/-- What is reported of a stamped template that does not open.  Faults without a report stop
the upload. -/
def report? : ToolFault → Option String
  | .damaged report => some report
  | .fileMissing path => some (missingFileText path)
  | .badValue report => some report
  | .refused report => some report
  | .malformed => none
  | .unexpected => none

/-- What a fault makes of an upload whose text parts are read. -/
def whileReading : ToolFault → UploadFailure
  | .damaged _ => .template .notPackage
  | .fileMissing path => .template (.fileMissing path)
  | fault => .tool fault

end ToolFault

namespace Toolkit

/-! ### Uploads -/

section

variable (toolkit : Toolkit)

/-- Writes a watermark into the content of a part. -/
def stampContent (watermark : LooseText) (content : Bytes) : Except UploadFailure Bytes :=
  match Utf8.decode? content with
  | none => .error .notText
  | some text =>
    let stamped : LooseText :=
      Text.replaceAll (LooseText.ofText Watermark.token) watermark (LooseText.ofText text)
    match stamped.toText? with
    | none => .error .notText
    | some stamped => .ok (Utf8.encode stamped)

/-- What is written of an entry: with the watermark if it is the part for it. -/
def stampEntry (watermark : LooseText) (part : String) (entry : Entry) (content : Bytes) :
    Except UploadFailure Bytes :=
  if entry.name == part then stampContent watermark content else .ok content

/-- Copies an entry into a new archive. -/
def copy (package : Package) (watermark : LooseText) (part : String) (entry : Entry) :
    Except UploadFailure (Entry × Bytes) := do
  let content ← (toolkit.content package entry.name).mapError .tool
  let stamped ← stampEntry watermark part entry content
  (toolkit.write entry stamped).mapError .tool
  return (entry, stamped)

/-- Writes a watermark into a part of a package. -/
def stamp (package : Package) (watermark : LooseText) (part : String) :
    Except UploadFailure Package := do
  let entries ← (toolkit.entries package).mapError .tool
  if (entries.map (·.name)).contains part then
    let copies ← entries.mapM (toolkit.copy package watermark part)
    (toolkit.close copies).mapError .tool
  else return package

/-- Checks that a stamped template opens. -/
def check (stamped : Package) : Except UploadFailure (Option String) :=
  match toolkit.opens stamped with
  | .ok () => .ok none
  | .error fault =>
    match fault.report? with
    | some report => .ok (some ("Invalid document format: " ++ report))
    | none => .error (.tool fault)

/-- The template as it is kept, with a report when a watermark made it invalid. -/
def prepared (settings : Settings) (package : Package) (watermark : LooseText) :
    Except UploadFailure (Package × Option String) :=
  if watermark.isEmpty then .ok (package, none)
  else
    match toolkit.stamp package watermark settings.watermarkPart with
    -- only damage is reported; all else that keeps a watermark out stops the upload
    | .error (.tool (.damaged report)) =>
      .ok (package, some ("Invalid document format: " ++ report))
    | .error failure => .error failure
    | .ok stamped => do return (stamped, ← toolkit.check stamped)

/-- Reads a text part. -/
def readPart (document : Package) (name : String) : Except UploadFailure (String × Bytes) := do
  return (name, ← (toolkit.content document name).mapError ToolFault.whileReading)

/-- Reads the text parts of a template. -/
def parts (document : Package) : Except UploadFailure (List (String × Bytes)) := do
  let names := (← (toolkit.entries document).mapError ToolFault.whileReading).map (·.name)
  match Part.tooLongAmong? names with
  | some digits => .error (.numberTooLong digits)
  | none => (Part.readingOrder names).mapM (toolkit.readPart document)

/-- The tokens in a part, when it is markup. -/
def tokensIn (content : Bytes) : Except UploadFailure (Option (List String)) :=
  match toolkit.parse content with
  | .ok root => .ok (some (Extraction.tokensOf root))
  | .error .malformed => .ok none
  | .error (.badValue _) => .ok none
  | .error fault => .error (.tool fault)

/-- Looks for the tokens in a text part. -/
def scanPart (part : String × Bytes) : Except UploadFailure (String × Option (List String)) := do
  return (part.1, ← toolkit.tokensIn part.2)

/-- Extracts the tokens of a template. -/
def extract (document : Package) : Except UploadFailure Extraction := do
  let read ← (← toolkit.parts document).mapM toolkit.scanPart
  (Extraction.ofRead read).mapError .template

/-- Resolves a template that was read. -/
def resolve (session : Session) (package : Package) (upload : Upload) (watermark : LooseText) :
    Except UploadFailure (Session × UploadResult) := do
  let (document, report) ← toolkit.prepared session.settings package watermark
  let extraction ← toolkit.extract document
  return session.resolvedWith upload document report extraction

/-- Uploads a template, with a watermark in place of that of the upload. -/
def process (session : Session) (upload : Upload) (watermark : LooseText) :
    Except UploadFailure (Session × Option UploadResult) :=
  let session := if upload.closesMeanwhile then session.close else session
  if !session.isAlive then .ok (session, none)
  else
    match upload.read with
    | .error reason => .error (.template (.unreadable reason))
    | .ok package =>
      (toolkit.resolve session package upload watermark).map fun (next, result) =>
        (next, some result)

end

end Toolkit

/-! ### The tools of this library -/

/-- A package that does not open, as a fault of the tool that opens it. -/
def OpenError.fault : OpenError → ToolFault
  | .malformed => .malformed
  | .notArchive => .damaged notArchiveText
  | error => .refused error.message

/-- A failure of an upload, as one of an upload with given tools. -/
def UploadError.failure : UploadError → UploadFailure
  | .part (.template error) => .template error
  | .part (.numberTooLong digits) => .numberTooLong digits
  | .notText => .notText
  | .malformed => .tool .malformed

namespace Toolkit

/-- The archive that a package is. -/
def archiveOf (package : Package) : Except ToolFault Archive :=
  match package.archive? with
  | some archive => .ok archive
  | none => .error (.damaged notArchiveText)

/-- The tools of this library. -/
def standard : Toolkit where
  entries package := (archiveOf package).map fun archive => archive.names.map .deflated
  content package name := archiveOf package >>= fun archive =>
    (OpenPackage.needed archive name).mapError OpenError.fault
  write _ _ := .ok ()
  close copies := .ok (.archive { entries := copies.map fun (entry, content) =>
    (entry.name, content) })
  parse content :=
    match Xml.Node.parse? .resolve content with
    | some root => .ok root
    | none => .error .malformed
  opens package := (OpenPackage.ofPackage package).mapError OpenError.fault |>.map fun _ => ()

section

variable {package : Package} {archive : Archive}

theorem archiveOf_of_archive? (opened : package.archive? = some archive) :
    archiveOf package = .ok archive := by
  rw [archiveOf, opened]

theorem archiveOf_of_none (notArchive : package.archive? = none) :
    archiveOf package = .error (.damaged notArchiveText) := by
  rw [archiveOf, notArchive]

theorem standard_entries (opened : package.archive? = some archive) :
    standard.entries package = .ok (archive.names.map .deflated) := by
  change (archiveOf package).map _ = _
  rw [archiveOf_of_archive? opened]
  rfl

theorem standard_entries_of_none (notArchive : package.archive? = none) :
    standard.entries package = .error (.damaged notArchiveText) := by
  change (archiveOf package).map _ = _
  rw [archiveOf_of_none notArchive]
  rfl

theorem standard_content (opened : package.archive? = some archive) {name : String}
    (listed : name ∈ archive.names) :
    standard.content package name = .ok (archive.contentOf name) := by
  change (archiveOf package >>= _) = _
  rw [archiveOf_of_archive? opened]
  change (OpenPackage.needed archive name).mapError _ = _
  rw [OpenPackage.needed, Archive.content?_of_mem_names listed]
  rfl

end

theorem stampContent_ofText (watermark : List Char) (content : Bytes) :
    stampContent (.ofText watermark) content =
      match Watermark.stampContent watermark content with
      | none => .error .notText
      | some stamped => .ok stamped := by
  rw [stampContent, Watermark.stampContent]
  cases Utf8.decode? content with
  | none => rfl
  | some text =>
      have stamped_eq : Text.replaceAll (LooseText.ofText Watermark.token)
          (LooseText.ofText watermark) (LooseText.ofText text) =
            LooseText.ofText (Text.replaceAll Watermark.token watermark text) :=
        Text.replaceAll_map (Option.some_injective Char) Watermark.token_ne_nil text
      simp [stamped_eq]

end Toolkit

/-- Why a watermark cannot be written, as a failure of an upload with given tools. -/
def WatermarkError.failure : WatermarkError → UploadFailure
  | .fileMissing path => .tool (.fileMissing path)
  | .notPackage => .tool (.damaged notArchiveText)
  | .notText => .notText

namespace Toolkit

section

variable {package : Package} {archive : Archive}

theorem standard_copy (opened : package.archive? = some archive) {name : String}
    (listed : name ∈ archive.names) (watermark : LooseText) (part : String) :
    standard.copy package watermark part (.deflated name) =
      (stampEntry watermark part (.deflated name) (archive.contentOf name)).map
        (.deflated name, ·) := by
  have content_eq : standard.content package (Entry.deflated name).name =
      .ok (archive.contentOf name) := standard_content opened listed
  rw [copy, content_eq]
  change (stampEntry watermark part (.deflated name) (archive.contentOf name) >>= _) = _
  cases stampEntry watermark part (.deflated name) (archive.contentOf name) with
  | error failure => rfl
  | ok stamped => rfl

theorem stampEntry_deflated (watermark : List Char) (part name : String) (content : Bytes) :
    stampEntry (.ofText watermark) part (.deflated name) content =
      if name == part then
        match Watermark.stampContent watermark content with
        | none => .error .notText
        | some stamped => .ok stamped
      else .ok content := by
  rw [stampEntry, stampContent_ofText]
  rfl

/-- All entries are copied, or the part for the watermark is no text. -/
theorem standard_mapM_copy (opened : package.archive? = some archive) {part : String}
    (listed : part ∈ archive.names) (watermark : List Char) :
    (archive.names.map .deflated).mapM (standard.copy package (.ofText watermark) part) =
      match Watermark.stampContent watermark (archive.contentOf part) with
      | none => .error .notText
      | some stamped => .ok (archive.names.map fun name =>
          (.deflated name, if name == part then stamped else archive.contentOf name)) := by
  rw [List.mapM_map]
  cases written : Watermark.stampContent watermark (archive.contentOf part) with
  | none =>
      refine mapM_eq_error_of_mem listed ?_ fun name nameMem failure fails => ?_
      · rw [Function.comp_apply, standard_copy opened listed, stampEntry_deflated, written,
          if_pos (beq_self_eq_true part)]
        rfl
      · rw [Function.comp_apply, standard_copy opened nameMem, stampEntry_deflated] at fails
        split at fails
        · next isPart =>
            rw [beq_iff_eq.mp isPart, written] at fails
            cases fails
            rfl
        · cases fails
  | some stamped =>
      refine mapM_eq_ok_map fun name nameMem => ?_
      rw [Function.comp_apply, standard_copy opened nameMem, stampEntry_deflated]
      split
      · next isPart =>
          rw [beq_iff_eq.mp isPart, written]
          rfl
      · rfl

end

theorem standard_stamp (package : Package) (watermark part : String) :
    standard.stamp package (.ofText watermark.toList) part =
      (Watermark.stamp package watermark part).mapError WatermarkError.failure := by
  rw [stamp, Watermark.stamp]
  cases opened : package.archive? with
  | none =>
      rw [standard_entries_of_none opened]
      rfl
  | some archive =>
      rw [standard_entries opened]
      simp only [Except.mapError, bind, Except.bind, map_name_deflated, Archive.lists]
      by_cases listed : part ∈ archive.names
      · simp only [List.contains_iff_mem.mpr listed, if_true, standard_mapM_copy opened listed,
          Watermark.stampArchive]
        cases Watermark.stampContent watermark.toList (archive.contentOf part) with
        | none => rfl
        | some stamped => simp [standard, Archive.names, Entry.deflated]
      · simp [listed]
        rfl

theorem standard_opens (package : Package) :
    standard.opens package =
      ((OpenPackage.ofPackage package).mapError OpenError.fault).map fun _ => () :=
  rfl

theorem standard_check (stamped : Package) :
    standard.check stamped =
      (OpenPackage.validate (.memory stamped)).mapError fun _ => .tool .malformed := by
  rw [check, standard_opens, OpenPackage.validate, OpenPackage.ofSource]
  cases OpenPackage.ofPackage stamped with
  | ok opened => rfl
  | error error => cases error <;> rfl

/-- A template is prepared as with the tools of this library. -/
theorem standard_prepared (settings : Settings) (package : Package) (watermark : String) :
    standard.prepared settings package (.ofText watermark.toList) =
      (Session.prepared settings package watermark).mapError UploadError.failure := by
  by_cases blank : watermark = ""
  · subst blank
    rfl
  · have given : (LooseText.ofText watermark.toList).isEmpty = false := by
      simpa [LooseText.ofText, List.isEmpty_eq_false_iff] using blank
    rw [prepared, given, standard_stamp, Session.prepared_of_given blank, Session.stamped]
    cases stamp_eq : Watermark.stamp package watermark settings.watermarkPart with
    | error refused =>
        cases opened : package.archive? with
        | none =>
            rw [Watermark.stamp, opened] at stamp_eq
            cases stamp_eq
            rfl
        | some archive =>
            obtain ⟨rfl, _⟩ := (Watermark.stamp_eq_error_iff opened).mp stamp_eq
            rfl
    | ok stamped =>
        simp only [Except.mapError, Bool.false_eq_true, if_false, standard_check]
        cases OpenPackage.validate (.memory stamped) with
        | ok report => rfl
        | error error => rfl

theorem mem_names_of_mem_readingOrder {names : List String} {name : String}
    (nameMem : name ∈ Part.readingOrder names) : name ∈ names := by
  rw [Part.readingOrder, List.mem_eraseDups, List.mem_append, List.mem_append] at nameMem
  rcases nameMem with (inBody | inHeaders) | inFooters
  · split at inBody
    · next listed =>
        rw [List.mem_singleton.mp inBody]
        exact List.contains_iff_mem.mp listed
    · cases inBody
  · exact (Part.mem_ordered.mp inHeaders).1
  · exact (Part.mem_ordered.mp inFooters).1

theorem standard_parts (document : Package) :
    standard.parts document =
      (Part.ofPackage document).mapError fun error => UploadError.failure (.part error) := by
  rw [parts, Part.ofPackage]
  cases opened : document.archive? with
  | none =>
      rw [standard_entries_of_none opened]
      rfl
  | some archive =>
      rw [standard_entries opened]
      simp only [Except.mapError, bind, Except.bind, map_name_deflated]
      cases Part.tooLongAmong? archive.names with
      | some digits => rfl
      | none =>
          refine mapM_eq_ok_map fun name nameMem => ?_
          have listed : name ∈ archive.names := mem_names_of_mem_readingOrder nameMem
          rw [readPart, standard_content opened listed]
          rfl

theorem standard_scanPart (part : String × Bytes) :
    standard.scanPart part = .ok (part.1, Extraction.tokensIn? part.2) := by
  have parse_eq : standard.parse part.2 =
      match Xml.Node.parse? .resolve part.2 with
      | some root => .ok root
      | none => .error .malformed := rfl
  rw [scanPart, tokensIn, parse_eq, Extraction.tokensIn?]
  cases Xml.Node.parse? .resolve part.2 with
  | none => rfl
  | some root => rfl

/-- The tokens of a template are extracted as with the tools of this library. -/
theorem standard_extract (document : Package) :
    standard.extract document =
      (Session.extractionOutcome document).mapError UploadError.failure := by
  rw [extract, standard_parts, Session.extractionOutcome, Extraction.ofSource, Part.ofSource]
  cases Part.ofPackage document with
  | error error => rfl
  | ok parts =>
      have read_eq : parts.mapM standard.scanPart =
          .ok (parts.map fun part => (part.1, Extraction.tokensIn? part.2)) :=
        mapM_eq_ok_map fun part _ => standard_scanPart part
      simp only [Except.mapError, bind, Except.bind, read_eq, Extraction.ofParts]
      cases Extraction.ofRead (parts.map fun part => (part.1, Extraction.tokensIn? part.2)) with
      | ok extraction => rfl
      | error error => rfl

/-- With the tools of this library, an upload is what `Session.process` makes of it. -/
theorem standard_process (session : Session) (upload : Upload) :
    standard.process session upload (.ofText upload.watermark.toList) =
      (session.process upload).mapError UploadError.failure := by
  rw [process, Session.process]
  generalize (if upload.closesMeanwhile then session.close else session) = session
  cases session.isAlive with
  | false => rfl
  | true =>
      cases upload.read with
      | error reason => rfl
      | ok package =>
          simp only [Bool.not_true, Bool.false_eq_true, if_false]
          rw [resolve, standard_prepared, Session.resolve_eq]
          rcases Session.prepared session.settings package upload.watermark with
            error | ⟨document, report⟩
          · rfl
          · simp only [Except.mapError, bind, Except.bind, standard_extract]
            cases Session.extractionOutcome document with
            | error error => rfl
            | ok extraction => rfl

end Toolkit

end Stencil
