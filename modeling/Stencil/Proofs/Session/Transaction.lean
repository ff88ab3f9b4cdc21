import Stencil.Proofs.Session.Run

/-!
# Uploads as transactions

An upload may fail at many points, and it changes five parts of a session.  `uploading`
spells it out as a sequence of effects in which every part is assigned on its own and a
failure leaves what was assigned before.  Since all that may fail comes before the first
assignment, an upload changes the session as a whole or not at all, and it is what
`process` says of it.  Catalogues that cannot be fetched are as good as empty ones.
-/

namespace Stencil

open Placeholder

namespace Catalogs

/-- A catalogue, which is empty when it could not be fetched. -/
def orEmptyList {α : Type} : Except String (List α) → Except String (List α)
  | .ok entries => .ok entries
  | .error _ => .ok []

/-- The catalogues with an empty one for each that could not be fetched. -/
def orEmpty (catalogs : Catalogs) : Catalogs :=
  { placeholders := orEmptyList catalogs.placeholders
    placeholderTypes := orEmptyList catalogs.placeholderTypes
    fieldTypes := orEmptyList catalogs.fieldTypes }

/-- The catalogue of a name could not be fetched for a reason. -/
def FailsWith (catalogs : Catalogs) (name reason : String) : Prop :=
  (name = "placeholders" ∧ catalogs.placeholders = .error reason) ∨
    (name = "placeholder_types" ∧ catalogs.placeholderTypes = .error reason) ∨
      (name = "field_types" ∧ catalogs.fieldTypes = .error reason)

section

variable {α : Type} (fetched : Except String (List α))

@[simp]
theorem entriesOf_orEmptyList : entriesOf (orEmptyList fetched) = entriesOf fetched := by
  cases fetched <;> rfl

@[simp]
theorem errorOf_orEmptyList (name : String) : errorOf name (orEmptyList fetched) = [] := by
  cases fetched <;> rfl

theorem mem_errorOf_iff (name : String) (entry : String × String) :
    entry ∈ errorOf name fetched ↔ entry.1 = name ∧ fetched = .error entry.2 := by
  cases fetched with
  | ok entries => simp [errorOf]
  | error reason =>
      rcases entry with ⟨other, why⟩
      simp [errorOf, eq_comm]

theorem keys_errorOf (name : String) : (errorOf name fetched).map (·.1) = [] ∨
    (errorOf name fetched).map (·.1) = [name] := by
  cases fetched with
  | ok entries => exact .inl rfl
  | error reason => exact .inr rfl

end

@[simp]
theorem errors_orEmpty (catalogs : Catalogs) : catalogs.orEmpty.errors = [] := by
  simp [errors, orEmpty]

/-- The errors that are told are those of the catalogues that could not be fetched. -/
theorem mem_errors_iff (catalogs : Catalogs) (name reason : String) :
    (name, reason) ∈ catalogs.errors ↔ catalogs.FailsWith name reason := by
  simp only [errors, List.mem_append, mem_errorOf_iff, FailsWith, or_assoc]

/-- No catalogue is told of twice. -/
theorem nodup_keys_errors (catalogs : Catalogs) : (catalogs.errors.map (·.1)).Nodup := by
  rw [errors, List.map_append, List.map_append]
  rcases keys_errorOf catalogs.placeholders "placeholders" with first | first <;>
  rcases keys_errorOf catalogs.placeholderTypes "placeholder_types" with second | second <;>
  rcases keys_errorOf catalogs.fieldTypes "field_types" with third | third <;>
  · rw [first, second, third]
    decide

end Catalogs

namespace Session

/-- A part of an upload: it works on a session and may fail, with what it has assigned so
far. -/
abbrev Action (α : Type) := ExceptT UploadError (StateM Session) α

namespace Action

/-- What a part of an upload leads to, from a session on. -/
def exec {α : Type} (action : Action α) (session : Session) : Except UploadError α × Session :=
  action.run.run session

/-- A part of an upload that works on no session. -/
def ofOutcome {α : Type} (outcome : Except UploadError α) : Action α :=
  ExceptT.mk (pure outcome)

end Action

/-- The bytes of a template, if they could be read. -/
def readOutcome (upload : Upload) : Except UploadError Package :=
  match upload.read with
  | .ok package => .ok package
  | .error reason => .error (.part (.template (.unreadable reason)))

/-- The tokens of a template, if its parts can be used. -/
def extractionOutcome (document : Package) : Except UploadError Extraction :=
  match Extraction.ofSource (.memory document) with
  | .ok extraction => .ok extraction
  | .error error => .error (.part error)

/-- Assigns all that an upload resolves, part by part. -/
def assign (upload : Upload) (document : Package) (routing : Routing) : Action Unit := do
  modify fun session => { session with
    genericList := merge (session.genericList ++ routing.genericList) }
  modify fun session => { session with
    fieldTypes := Catalogs.entriesOf upload.catalogs.fieldTypes }
  modify fun session => { session with
    placeholderTypes := Catalogs.entriesOf upload.catalogs.placeholderTypes }
  modify fun session => { session with
    journal := some (Journal.create routing.placeholders (some session.settings) historyLimit) }
  modify fun session => { session with document := some document }

/-- Resolves a template as a sequence of effects: what may fail, then what is assigned. -/
def resolving (upload : Upload) : Action UploadResult := do
  let package ← Action.ofOutcome (readOutcome upload)
  let (document, validationError) ←
    Action.ofOutcome (prepared (← get).settings package upload.watermark)
  let extraction ← Action.ofOutcome (extractionOutcome document)
  let routing := Routing.ofPlaceholders (Placeholder.ofTokenLists [extraction.tokens])
    (Catalogs.entriesOf upload.catalogs.placeholders) (← get).settings (← get).genericList
  assign upload document routing
  let session ← get
  return {
    extraction, routing, validationError
    fieldTypes := session.fieldTypes
    placeholderTypes := session.placeholderTypes
    catalogErrors := upload.catalogs.errors }

/-- An upload as a sequence of effects; a session that is closed has no result. -/
def uploading (upload : Upload) : Action (Option UploadResult) := do
  if upload.closesMeanwhile then modify close
  if !(← get).isAlive then return none
  return some (← resolving upload)

theorem exec_ofOutcome_bind {α β : Type} (outcome : Except UploadError α) (next : α → Action β)
    (session : Session) :
    (Action.ofOutcome outcome >>= next).exec session =
      match outcome with
      | .ok a => (next a).exec session
      | .error error => (.error error, session) := by
  cases outcome with
  | ok a => rfl
  | error error => rfl

/-- The session and the result that an upload comes to when nothing fails. -/
def resolvedWith (session : Session) (upload : Upload) (document : Package)
    (validationError : Option String) (extraction : Extraction) : Session × UploadResult :=
  let routing := Routing.ofPlaceholders (Placeholder.ofTokenLists [extraction.tokens])
    (Catalogs.entriesOf upload.catalogs.placeholders) session.settings session.genericList
  let fieldTypes := Catalogs.entriesOf upload.catalogs.fieldTypes
  let placeholderTypes := Catalogs.entriesOf upload.catalogs.placeholderTypes
  ({ session with
      genericList := merge (session.genericList ++ routing.genericList)
      fieldTypes
      placeholderTypes
      journal := some (Journal.create routing.placeholders (some session.settings) historyLimit)
      document := some document },
    { extraction, routing, fieldTypes, placeholderTypes, validationError
      catalogErrors := upload.catalogs.errors })

/-- A template that was read is prepared, and then its tokens are extracted. -/
theorem resolve_eq (session : Session) (package : Package) (upload : Upload) :
    session.resolve package upload =
      prepared session.settings package upload.watermark >>= fun (document, validationError) =>
        extractionOutcome document >>= fun extraction =>
          .ok (session.resolvedWith upload document validationError extraction) := by
  unfold resolve extractionOutcome
  rcases prepared session.settings package upload.watermark with error | ⟨document, report⟩
  · rfl
  · simp only [bind, Except.bind]
    rcases Extraction.ofSource (.memory document) with error | extraction
    · rfl
    · rfl

/-- An open session resolves what was read. -/
theorem process_of_open {session : Session} {upload : Upload}
    (opened : upload.closesMeanwhile = false) (alive : session.isAlive = true) :
    session.process upload = readOutcome upload >>= fun package =>
      (session.resolve package upload).map fun (next, result) => (next, some result) := by
  unfold process readOutcome
  simp only [opened, alive, Bool.false_eq_true, if_false, Bool.not_true]
  rcases upload.read with reason | package
  · rfl
  · simp only [bind, Except.bind]
    rcases session.resolve package upload with error | ⟨next, result⟩
    · rfl
    · rfl

/-- What a part that fails or resolves a session leads to. -/
def settle {α : Type} (session : Session) (outcome : Except UploadError (Session × α)) :
    Except UploadError α × Session :=
  match outcome with
  | .ok (next, answer) => (.ok answer, next)
  | .error error => (.error error, session)

theorem exec_resolving (session : Session) (upload : Upload) :
    (resolving upload).exec session =
      session.settle (readOutcome upload >>= fun package => session.resolve package upload) := by
  change (Action.ofOutcome (readOutcome upload) >>= _).exec session = _
  rw [exec_ofOutcome_bind]
  rcases readOutcome upload with error | package
  · rfl
  · change (Action.ofOutcome (prepared session.settings package upload.watermark) >>= _).exec _ =
      session.settle (session.resolve package upload)
    rw [exec_ofOutcome_bind, resolve_eq]
    rcases prepared session.settings package upload.watermark with error | ⟨document, report⟩
    · rfl
    · change (Action.ofOutcome (extractionOutcome document) >>= _).exec _ =
        session.settle (extractionOutcome document >>= fun extraction =>
          .ok (session.resolvedWith upload document report extraction))
      rw [exec_ofOutcome_bind]
      rcases extractionOutcome document with error | extraction
      · rfl
      · rfl

theorem exec_bind_some {α : Type} (action : Action α) (session : Session) :
    (action >>= fun a => pure (some a)).exec session =
      (action.exec session).map (Except.map some) id := by
  change (ExceptT.bindCont (m := StateM Session) (fun a => pure (some a)) (action session).1)
    (action session).2 = _
  rcases outcome : action session with ⟨result, after⟩
  have exec_eq : action.exec session = (result, after) := outcome
  rw [exec_eq]
  cases result with
  | error error => rfl
  | ok a => rfl

/-- The effects of an upload are those of processing it, and one that fails leaves the
session as it was. -/
theorem exec_uploading (session : Session) (upload : Upload) :
    (uploading upload).exec session = session.settle (session.process upload) := by
  rcases session with ⟨settings, generic, fieldTypes, placeholderTypes, journal, kept, isAlive⟩
  cases closes : upload.closesMeanwhile with
  | true =>
      simp only [uploading, process, closes]
      rfl
  | false =>
      cases isAlive with
      | false =>
          simp only [uploading, process, closes]
          rfl
      | true =>
          rw [process_of_open closes rfl]
          simp only [uploading, closes]
          change (resolving upload >>= fun result => pure (some result)).exec _ = _
          rw [exec_bind_some, exec_resolving]
          rcases readOutcome upload with error | package
          · rfl
          · simp only [bind, Except.bind]
            rcases resolve _ package upload with error | ⟨next, result⟩
            · rfl
            · rfl

/-- What an upload may change in a session. -/
structure Contents where
  genericList : List Placeholder
  fieldTypes : List FieldType
  placeholderTypes : List PlaceholderType
  journal : Option Journal
  document : Option Package

/-- The contents of a session. -/
def contents (session : Session) : Contents :=
  ⟨session.genericList, session.fieldTypes, session.placeholderTypes, session.journal,
    session.document⟩

/-- A session is closed for an upload when it was closed before or while the template was
read. -/
def IsClosedFor (session : Session) (upload : Upload) : Prop :=
  session.isAlive = false ∨ upload.closesMeanwhile = true

theorem not_isClosedFor_iff {session : Session} {upload : Upload} :
    ¬session.IsClosedFor upload ↔ session.isAlive = true ∧ upload.closesMeanwhile = false := by
  simp [IsClosedFor]

end Session

/-- An upload with an empty catalogue in place of each that could not be fetched. -/
def Upload.orEmpty (upload : Upload) : Upload :=
  { upload with catalogs := upload.catalogs.orEmpty }

/-- A result that tells of no catalogue that could not be fetched. -/
def UploadResult.withoutErrors (result : UploadResult) : UploadResult :=
  { result with catalogErrors := [] }

namespace Watermark

/-- The only thing that keeps a watermark out of an archive is a part that is no text. -/
theorem stamp_eq_error_iff {package : Package} {archive : Archive} {watermark part : String}
    {error : WatermarkError} (opened : package.archive? = some archive) :
    stamp package watermark part = .error error ↔
      error = .notText ∧ archive.lists part = true ∧
        Utf8.decode? (archive.contentOf part) = none := by
  simp only [stamp, opened, stampArchive, stampContent]
  cases listed : archive.lists part with
  | false => simp
  | true =>
      cases decoded : Utf8.decode? (archive.contentOf part) with
      | none => simp [eq_comm]
      | some text => simp

end Watermark

namespace Session

/-- An upload that has changed a session as a whole. -/
structure Committed (session : Session) (upload : Upload) (result : UploadResult)
    (after : Session) : Prop where
  /-- The document is what was read, with the watermark that was given. -/
  document : ∃ package document, upload.read = .ok package ∧ after.document = some document ∧
    if upload.watermark = "" then document = package
    else Watermark.stamp package upload.watermark session.settings.watermarkPart = .ok document
  /-- The arrangement is begun with the placeholders that are not reserved. -/
  journal : after.journal = some {
    arrangement := .start (Routing.visible result.routing.placeholders session.settings)
    history := []
    limit := historyLimit }
  genericList : after.genericList = merge (session.genericList ++ result.routing.genericList)
  fieldTypes : after.fieldTypes = Catalogs.entriesOf upload.catalogs.fieldTypes ∧
    result.fieldTypes = after.fieldTypes
  placeholderTypes : after.placeholderTypes = Catalogs.entriesOf upload.catalogs.placeholderTypes ∧
    result.placeholderTypes = after.placeholderTypes
  /-- The catalogues that could not be fetched are told of, each once. -/
  catalogErrors : (result.catalogErrors.map (·.1)).Nodup ∧
    ∀ name reason, (name, reason) ∈ result.catalogErrors ↔ upload.catalogs.FailsWith name reason
  /-- Empty catalogues in their place make no further difference. -/
  degraded : session.process upload.orEmpty = .ok (after, some result.withoutErrors)

/-- What an upload leads to, as a transaction: it is discarded when the session is closed,
fails without a trace, or changes the session as a whole. -/
def IsTransaction (session : Session) (upload : Upload) :
    Except UploadError (Option UploadResult) × Session → Prop
  | (.ok none, after) => session.IsClosedFor upload ∧ after.contents = session.contents
  | (.error _, after) => ¬session.IsClosedFor upload ∧ after.contents = session.contents
  | (.ok (some result), after) =>
    ¬session.IsClosedFor upload ∧ Committed session upload result after

theorem prepared_of_given {settings : Settings} {package : Package} {watermark : String}
    (given : watermark ≠ "") :
    prepared settings package watermark = stamped settings package watermark := by
  rw [prepared, beq_eq_false_iff_ne.mpr given]
  rfl

/-- Nothing is extracted from bytes that form no archive. -/
theorem ofSource_of_archive?_eq_none {package : Package} (notArchive : package.archive? = none) :
    Extraction.ofSource (.memory package) = .error (.template .notPackage) := by
  simp only [Extraction.ofSource, Part.ofSource, Part.ofPackage, notArchive]
  rfl

/-- A template that could be prepared is as it was read, or it has its watermark.  With a
watermark it is as it was read only when it forms no archive. -/
theorem prepared_eq_ok {settings : Settings} {package document : Package} {watermark : String}
    {report : Option String}
    (prepared_eq : prepared settings package watermark = .ok (document, report)) :
    (watermark = "" ∧ document = package) ∨
      (watermark ≠ "" ∧ package.archive? = none ∧ document = package) ∨
        (watermark ≠ "" ∧
          Watermark.stamp package watermark settings.watermarkPart = .ok document) := by
  by_cases blank : watermark = ""
  · rw [blank] at prepared_eq
    cases prepared_eq
    exact .inl ⟨blank, rfl⟩
  · rw [prepared_of_given blank, stamped] at prepared_eq
    split at prepared_eq
    · cases prepared_eq
    · next error other refused =>
        cases prepared_eq
        cases opened : package.archive? with
        | none => exact .inr (.inl ⟨blank, rfl, rfl⟩)
        | some archive => exact absurd ((Watermark.stamp_eq_error_iff opened).mp refused).1 other
    · next stamp_eq =>
        split at prepared_eq
        · cases prepared_eq
          exact .inr (.inr ⟨blank, stamp_eq⟩)
        · cases prepared_eq

/-- A document from which something can be extracted is the template that was read, with the
watermark that was given. -/
theorem document_of_prepared {settings : Settings} {package document : Package}
    {watermark : String} {report : Option String} {extraction : Extraction}
    (prepared_eq : prepared settings package watermark = .ok (document, report))
    (extracted : Extraction.ofSource (.memory document) = .ok extraction) :
    if watermark = "" then document = package
    else Watermark.stamp package watermark settings.watermarkPart = .ok document := by
  rcases prepared_eq_ok prepared_eq with
    ⟨blank, document_eq⟩ | ⟨_, notArchive, rfl⟩ | ⟨given, stamp_eq⟩
  · rw [if_pos blank]
    exact document_eq
  · rw [ofSource_of_archive?_eq_none notArchive] at extracted
    cases extracted
  · rw [if_neg given]
    exact stamp_eq

/-- A template is resolved with empty catalogues as with those that could not be fetched. -/
theorem resolve_orEmpty (session : Session) (package : Package) (upload : Upload) :
    session.resolve package upload.orEmpty =
      (session.resolve package upload).map fun (next, result) => (next, result.withoutErrors) := by
  rw [resolve_eq, resolve_eq]
  have watermark_eq : upload.orEmpty.watermark = upload.watermark := rfl
  rw [watermark_eq]
  rcases prepared session.settings package upload.watermark with error | ⟨document, report⟩
  · rfl
  · simp only [bind, Except.bind]
    rcases extractionOutcome document with error | extraction
    · rfl
    · simp [resolvedWith, Upload.orEmpty, Catalogs.orEmpty, UploadResult.withoutErrors, Except.map,
        Catalogs.errors]

/-- A processed upload has changed the session as a whole. -/
theorem committed_of_process {session next : Session} {upload : Upload} {result : UploadResult}
    (processed : session.process upload = .ok (next, some result)) :
    Committed session upload result next := by
  obtain ⟨closes, alive, package, read_eq, resolved⟩ := process_eq_ok_some processed
  have opened : upload.orEmpty.closesMeanwhile = false := closes
  have read_orEmpty : readOutcome upload.orEmpty = .ok package := by
    simp [readOutcome, Upload.orEmpty, read_eq]
  have degraded : session.process upload.orEmpty = .ok (next, some result.withoutErrors) := by
    rw [process_of_open opened alive, read_orEmpty]
    simp only [bind, Except.bind]
    rw [resolve_orEmpty, resolved]
    rfl
  obtain ⟨document, prepared_eq, extracted, routing_eq, fieldTypes_eq, placeholderTypes_eq,
    errors_eq, rfl⟩ := resolve_eq_ok resolved
  constructor
  case document => exact ⟨package, document, read_eq, rfl, document_of_prepared prepared_eq extracted⟩
  case journal => rfl
  case genericList => rfl
  case fieldTypes => exact ⟨fieldTypes_eq, rfl⟩
  case placeholderTypes => exact ⟨placeholderTypes_eq, rfl⟩
  case catalogErrors =>
    rw [errors_eq]
    exact ⟨upload.catalogs.nodup_keys_errors, upload.catalogs.mem_errors_iff⟩
  case degraded => exact degraded

/-- A closed session answers an upload with nothing, whatever was read. -/
theorem process_of_closed {session : Session} {upload : Upload}
    (closed : session.IsClosedFor upload) :
    ∃ after, session.process upload = .ok (after, none) ∧ after.contents = session.contents := by
  unfold process
  cases closes : upload.closesMeanwhile with
  | true => exact ⟨session.close, rfl, rfl⟩
  | false =>
      rcases closed with dead | closes'
      · exact ⟨session, by simp [dead], rfl⟩
      · rw [closes] at closes'
        cases closes'

/-- An open session answers an upload with a result or fails. -/
theorem process_ne_ok_none {session after : Session} {upload : Upload}
    (opened : ¬session.IsClosedFor upload) : session.process upload ≠ .ok (after, none) := by
  rintro processed
  obtain ⟨alive, closes⟩ := not_isClosedFor_iff.mp opened
  rw [process_of_open closes alive] at processed
  obtain ⟨package, _, processed⟩ := bind_eq_ok.mp processed
  rcases resolved : session.resolve package upload with error | ⟨next, result⟩
  · rw [resolved] at processed
    cases processed
  · rw [resolved] at processed
    cases processed

/-- An upload is a transaction.  Its effects, each assigned on its own, are what `process`
makes of the session, and it is discarded, fails without a trace, or changes the session as
a whole. -/
theorem uploading_is_transaction (session : Session) (upload : Upload) :
    (uploading upload).exec session = session.settle (session.process upload) ∧
      IsTransaction session upload ((uploading upload).exec session) := by
  have exec_eq := exec_uploading session upload
  constructor
  · exact exec_eq
  · rw [exec_eq]
    by_cases closed : session.IsClosedFor upload
    · obtain ⟨after, processed, unchanged⟩ := process_of_closed closed
      rw [processed]
      exact ⟨closed, unchanged⟩
    · rcases processed : session.process upload with error | ⟨after, result⟩
      · exact ⟨closed, rfl⟩
      · cases result with
        | none => exact absurd processed (process_ne_ok_none closed)
        | some result => exact ⟨closed, committed_of_process processed⟩

end Session

end Stencil
