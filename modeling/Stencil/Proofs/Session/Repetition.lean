import Stencil.Proofs.Session.Transaction

/-!
# Uploading a template again

A template may be uploaded a second time.  What the first upload made generic data is
known by then, and it is just what an operator does not get to see; so the second
routing drops it, finds no generic data, and leaves the same placeholders to arrange.  The
session comes out as it was, and nothing that happens later can tell the difference.
-/

namespace Stencil

open Placeholder

namespace Routing

/-- A routing when its generic data is known beforehand. -/
def withoutGeneric (routing : Routing) : Routing :=
  { placeholders := routing.inputList, genericList := [], inputList := routing.inputList }

/-- The generic data that is known after a routing. -/
def learned (known : List Placeholder) (routing : Routing) : List Placeholder :=
  merge (known ++ routing.genericList)

variable {tokens : List String} {catalog : List Placeholder} {settings : Settings}
  {known : List Placeholder}

/-- What becomes of a placeholder: nothing when its tag is known as generic data, and
otherwise what the catalogue makes of it. -/
def routed (catalog : List Placeholder) (settings : Settings) (known : List Placeholder)
    (p : Placeholder) : Option Placeholder :=
  if p.fullTagName ∈ tagsOf known then none else enriched catalog settings p

/-- The placeholders of a template are routed one by one. -/
theorem placeholders_ofTokens :
    (ofTokens tokens catalog settings known).placeholders =
      (ofTokenLists [tokens]).filterMap (routed catalog settings known) := by
  simp only [ofTokens, ofPlaceholders, enrich, dropKnownGeneric]
  rw [List.filterMap_filter]
  apply List.filterMap_congr
  intro p pMem
  simp only [(bare_of_mem_ofTokenLists pMem).2, Bool.or_false, Bool.not_eq_true',
    List.contains_eq_mem, decide_eq_false_iff_not, ite_not]
  rfl

theorem mem_tagsOf_learned_iff {routing : Routing} {tag : String} :
    tag ∈ tagsOf (learned known routing) ↔
      tag ∈ tagsOf known ∨ tag ∈ tagsOf routing.genericList := by
  rw [learned, mem_tagsOf_merge, tagsOf, List.map_append, List.mem_append]

/-- Of the placeholders that are routed exactly the reserved ones become generic data. -/
theorem mem_tagsOf_genericList_iff {q : Placeholder}
    (qMem : q ∈ (ofTokens tokens catalog settings known).placeholders) :
    q.fullTagName ∈ tagsOf (ofTokens tokens catalog settings known).genericList ↔
      isReserved settings q = true := by
  rw [genericList_ofTokens]
  constructor
  · intro tagMem
    rcases List.mem_map.mp tagMem with ⟨q', q'Mem, tags_eq⟩
    rcases List.mem_filter.mp q'Mem with ⟨q'Mem, reserved⟩
    obtain rfl := List.inj_on_of_nodup_map nodup_placeholders_ofTokens q'Mem qMem tags_eq
    exact reserved
  · intro reserved
    exact List.mem_map_of_mem (List.mem_filter.mpr ⟨qMem, reserved⟩)

/-- What a routing has made known takes away the reserved placeholders and no others. -/
theorem routed_learned {p : Placeholder} (pMem : p ∈ ofTokenLists [tokens]) :
    routed catalog settings (learned known (ofTokens tokens catalog settings known)) p =
      (routed catalog settings known p).filter fun q => !isReserved settings q := by
  by_cases old : p.fullTagName ∈ tagsOf known
  · rw [routed, routed, if_pos (mem_tagsOf_learned_iff.mpr (.inl old)), if_pos old]
    rfl
  · have unknown : routed catalog settings known p = enriched catalog settings p := if_neg old
    rw [unknown]
    cases kept : enriched catalog settings p with
    | none => simp [routed, kept]
    | some q =>
        have qMem : q ∈ (ofTokens tokens catalog settings known).placeholders := by
          rw [placeholders_ofTokens]
          exact List.mem_filterMap.mpr ⟨p, pMem, unknown.trans kept⟩
        have generic_iff := mem_tagsOf_genericList_iff qMem
        rw [fullTagName_of_enriched kept] at generic_iff
        simp only [routed, mem_tagsOf_learned_iff, old, false_or, generic_iff, kept,
          Option.filter_some]
        cases isReserved settings q <;> rfl

/-- With its generic data known, a template is routed to the same input list and to nothing
else. -/
theorem ofTokens_learned :
    ofTokens tokens catalog settings (learned known (ofTokens tokens catalog settings known)) =
      (ofTokens tokens catalog settings known).withoutGeneric := by
  let first := ofTokens tokens catalog settings known
  let second := ofTokens tokens catalog settings (learned known first)
  have placeholders_eq : second.placeholders = first.inputList := by
    rw [inputList_ofTokens, visible, placeholders_ofTokens, placeholders_ofTokens,
      List.filter_filterMap]
    exact List.filterMap_congr fun p pMem => routed_learned pMem
  have unreserved : ∀ q ∈ first.inputList, isReserved settings q = false := by
    intro q qMem
    rw [inputList_ofTokens] at qMem
    simpa using (List.mem_filter.mp qMem).2
  have generic_eq : second.genericList = [] := by
    rw [genericList_ofTokens, placeholders_eq, List.filter_eq_nil_iff]
    intro q qMem
    simp [unreserved q qMem]
  have input_eq : second.inputList = first.inputList := by
    rw [inputList_ofTokens, placeholders_eq, visible, List.filter_eq_self]
    intro q qMem
    simp [unreserved q qMem]
  calc
    second = ⟨second.placeholders, second.genericList, second.inputList⟩ := rfl
    _ = first.withoutGeneric := by rw [placeholders_eq, generic_eq, input_eq]; rfl

theorem learned_withoutGeneric (known : List Placeholder) (routing : Routing) :
    learned (learned known routing) routing.withoutGeneric = learned known routing := by
  rw [learned, withoutGeneric, List.append_nil]
  exact merge_eq_self (nodup_tagsOf_merge _)

/-- The placeholders to arrange are all visible. -/
theorem visible_inputList :
    visible (ofTokens tokens catalog settings known).inputList settings =
      visible (ofTokens tokens catalog settings known).placeholders settings := by
  rw [inputList_ofTokens, visible, visible, List.filter_filter]
  simp only [Bool.and_self]

end Routing

namespace UploadResult

/-- The result of an upload when its generic data is known beforehand. -/
def repeated (result : UploadResult) : UploadResult :=
  { result with routing := result.routing.withoutGeneric }

end UploadResult

namespace Session

/-- An upload is processed when the session is open and reading, preparing and extracting
succeed; what it comes to is then determined. -/
theorem process_eq_ok_some_iff {session next : Session} {upload : Upload}
    {result : UploadResult} :
    session.process upload = .ok (next, some result) ↔
      upload.closesMeanwhile = false ∧ session.isAlive = true ∧
        ∃ package document report extraction,
          upload.read = .ok package ∧
          prepared session.settings package upload.watermark = .ok (document, report) ∧
          extractionOutcome document = .ok extraction ∧
          session.resolvedWith upload document report extraction = (next, result) := by
  constructor
  · intro processed
    obtain ⟨closes, alive, package, read_eq, resolved⟩ := process_eq_ok_some processed
    rw [resolve_eq] at resolved
    obtain ⟨⟨document, report⟩, prepared_eq, resolved⟩ := bind_eq_ok.mp resolved
    obtain ⟨extraction, extracted, resolved⟩ := bind_eq_ok.mp resolved
    exact ⟨closes, alive, package, document, report, extraction, read_eq, prepared_eq, extracted,
      Except.ok.inj resolved⟩
  · rintro ⟨closes, alive, package, document, report, extraction, read_eq, prepared_eq, extracted,
      outcome_eq⟩
    rw [process_of_open closes alive, readOutcome, read_eq]
    change Except.map _ (session.resolve package upload) = _
    rw [resolve_eq, prepared_eq]
    change Except.map _ (extractionOutcome document >>= _) = _
    rw [extracted]
    change Except.map _ (Except.ok (session.resolvedWith upload document report extraction)) = _
    rw [outcome_eq]
    rfl

/-- The session and the result that a routing comes to. -/
def routedTo (session : Session) (upload : Upload) (document : Package) (report : Option String)
    (extraction : Extraction) (routing : Routing) : Session × UploadResult :=
  ({ session with
      genericList := Routing.learned session.genericList routing
      fieldTypes := Catalogs.entriesOf upload.catalogs.fieldTypes
      placeholderTypes := Catalogs.entriesOf upload.catalogs.placeholderTypes
      journal := some (Journal.create routing.placeholders (some session.settings) historyLimit)
      document := some document },
    { extraction, routing
      fieldTypes := Catalogs.entriesOf upload.catalogs.fieldTypes
      placeholderTypes := Catalogs.entriesOf upload.catalogs.placeholderTypes
      validationError := report
      catalogErrors := upload.catalogs.errors })

theorem resolvedWith_eq_routedTo (session : Session) (upload : Upload) (document : Package)
    (report : Option String) (extraction : Extraction) :
    session.resolvedWith upload document report extraction =
      session.routedTo upload document report extraction
        (Routing.ofTokens extraction.tokens (Catalogs.entriesOf upload.catalogs.placeholders)
          session.settings session.genericList) :=
  rfl

/-- Resolving a template again gives the session that the first time gave, and finds no
generic data. -/
theorem resolvedWith_again {session next : Session} {upload : Upload} {document : Package}
    {report : Option String} {extraction : Extraction} {result : UploadResult}
    (outcome_eq : session.resolvedWith upload document report extraction = (next, result)) :
    next.resolvedWith upload document report extraction = (next, result.repeated) := by
  let catalog := Catalogs.entriesOf upload.catalogs.placeholders
  let routing := Routing.ofTokens extraction.tokens catalog session.settings session.genericList
  have visible_eq : Routing.visible routing.withoutGeneric.placeholders session.settings =
      Routing.visible routing.placeholders session.settings := Routing.visible_inputList
  rw [resolvedWith_eq_routedTo] at outcome_eq ⊢
  cases outcome_eq
  let first := session.routedTo upload document report extraction routing
  calc
    first.1.routedTo upload document report extraction
        (Routing.ofTokens extraction.tokens catalog session.settings
          (Routing.learned session.genericList routing)) =
        first.1.routedTo upload document report extraction routing.withoutGeneric := by
      exact congrArg (first.1.routedTo upload document report extraction) Routing.ofTokens_learned
    _ = (first.1, first.2.repeated) := by
      simp only [first, routedTo, Journal.create, Arrangement.create, visible_eq]
      rw [Routing.learned_withoutGeneric]
      rfl

/-- A template that was processed is processed again with the same outcome for the session. -/
theorem process_again {session next : Session} {upload : Upload} {result : UploadResult}
    (processed : session.process upload = .ok (next, some result)) :
    next.process upload = .ok (next, some result.repeated) := by
  obtain ⟨closes, alive, package, document, report, extraction, read_eq, prepared_eq, extracted,
    outcome_eq⟩ := process_eq_ok_some_iff.mp processed
  have again := resolvedWith_again outcome_eq
  cases outcome_eq
  exact process_eq_ok_some_iff.mpr
    ⟨closes, alive, package, document, report, extraction, read_eq, prepared_eq, extracted, again⟩

end Session

namespace SessionRun

/-- What an event makes of a session does not depend on what was uploaded before. -/
theorem session_next_congr {run other : SessionRun} (same : run.session = other.session)
    (event : SessionEvent) : (run.next event).session = (other.next event).session := by
  cases event with
  | upload upload =>
      simp only [next, same]
      rcases other.session.process upload with error | ⟨session, _ | result⟩
      · exact same
      · rfl
      · rfl
  | command fields =>
      simp only [next, same]
      rcases other.session.dispatch fields with error | session
      · exact same
      · rfl
  | close => exact congrArg Session.close same

theorem session_foldl_next_congr {run other : SessionRun} (same : run.session = other.session)
    (events : List SessionEvent) :
    (events.foldl next run).session = (events.foldl next other).session := by
  induction events generalizing run other with
  | nil => exact same
  | cons event rest ih => exact ih (session_next_congr same event)

theorem session_next_upload {run : SessionRun} {upload : Upload} {session : Session}
    {result : UploadResult} (processed : run.session.process upload = .ok (session, some result)) :
    (run.next (.upload upload)).session = session := by
  simp only [next, processed]

/-- Uploading a template again is harmless.  In whatever state a session has come to, a
template that was processed is processed again, the session stays as it is, and the same later
events lead to the same forms. -/
theorem upload_again_is_harmless (settings : Settings) (events : List SessionEvent)
    {upload : Upload} {session : Session} {result : UploadResult}
    (processed : (ofEvents settings events).session.process upload = .ok (session, some result)) :
    session.process upload = .ok (session, some result.repeated) ∧
      ∀ later documentId preview includesGeneric today,
        (ofEvents settings (events ++ .upload upload :: .upload upload :: later)).session.compile
            documentId preview includesGeneric today =
          (ofEvents settings (events ++ .upload upload :: later)).session.compile
            documentId preview includesGeneric today := by
  have again := Session.process_again processed
  refine ⟨again, ?_⟩
  intro later documentId preview includesGeneric today
  let once := (ofEvents settings events).next (.upload upload)
  have once_eq : once.session = session := session_next_upload processed
  have twice_eq : (once.next (.upload upload)).session = once.session := by
    rw [session_next_upload (once_eq.symm ▸ again), once_eq]
  have after_eq := session_foldl_next_congr twice_eq later
  simp only [ofEvents, List.foldl_append, List.foldl_cons]
  exact congrArg (fun after => after.compile documentId preview includesGeneric today) after_eq

/-- An upload with a tag of every kind: known as generic data before, generic by its first
record, for master folders only, registered for input, and in no catalogue. -/
def mixedUpload : Upload :=
  { read := .ok (sampleTemplate "{A}{B}{M}{D}{E}")
    catalogs := {
      placeholders := .ok [
        { fullTagName := "B", placeholderTypeId := "generic-data" },
        { fullTagName := "M", placeholderTypeId := "master-folder-only" },
        { fullTagName := "D", placeholderTypeId := "contract", fieldTypeId := .str "text" },
        { fullTagName := "B", placeholderTypeId := "contract" }] } }

theorem mixedUpload_again_is_harmless :
    ∃ session result,
      (ofEvents {} (sampleEvents.take 1)).session.process mixedUpload =
        .ok (session, some result) ∧
      session.process mixedUpload = .ok (session, some result.repeated) ∧
      ∀ later documentId preview includesGeneric today,
        (ofEvents {} (sampleEvents.take 1
            ++ .upload mixedUpload :: .upload mixedUpload :: later)).session.compile
            documentId preview includesGeneric today =
          (ofEvents {} (sampleEvents.take 1 ++ .upload mixedUpload :: later)).session.compile
            documentId preview includesGeneric today := by
  -- Only B is new as generic data; A is known, M is withheld, D and E are to be entered.
  have succeeds :
      (((ofEvents {} (sampleEvents.take 1)).session.process mixedUpload).toOption.bind (·.2)).map
          (fun result => (tagsOf result.routing.genericList, tagsOf result.routing.inputList)) =
        some (["B"], ["D", "E"]) := by
    decide +kernel
  rcases processed : (ofEvents {} (sampleEvents.take 1)).session.process mixedUpload with
    error | ⟨session, _ | result⟩
  · rw [processed] at succeeds
    cases succeeds
  · rw [processed] at succeeds
    cases succeeds
  · exact ⟨session, result, rfl, upload_again_is_harmless {} (sampleEvents.take 1) processed⟩

end SessionRun

end Stencil
