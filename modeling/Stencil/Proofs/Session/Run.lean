import Stencil.Proofs.Arrangement.Conservation
import Stencil.Proofs.Outcome
import Stencil.Proofs.Routing
import Stencil.Session

/-!
# Sessions in use

A session in use sees uploads, commands and possibly its own closing, in any order.
What fails leaves it as it was.  In every session that has come to an
arrangement, the tokens of the template processed last are settled: they are
arranged, or generic data, or withheld by the catalogue of that upload.  The
invariant behind this is `Routed`.
-/

namespace Stencil

open Placeholder

/-- Something that happens to a session. -/
inductive SessionEvent where
  | upload (upload : Upload)
  | command (fields : Record.Fields)
  | close

/-- A session in use, with the upload that it processed last and its result. -/
structure SessionRun where
  session : Session
  last : Option (Upload × UploadResult) := none

namespace SessionRun

/-- What an event makes of a session in use. -/
def next (run : SessionRun) : SessionEvent → SessionRun
  | .upload upload =>
    match run.session.process upload with
    | .ok (session, some result) => { session, last := some (upload, result) }
    | .ok (session, none) => { run with session }
    | .error _ => run
  | .command fields =>
    match run.session.dispatch fields with
    | .ok session => { run with session }
    | .error _ => run
  | .close => { run with session := run.session.close }

/-- A session in use after some events. -/
def ofEvents (settings : Settings) (events : List SessionEvent) : SessionRun :=
  events.foldl next { session := { settings } }

end SessionRun

namespace Session

/-- What a successful resolution consists of. -/
theorem resolve_eq_ok {session next : Session} {package : Package} {upload : Upload}
    {result : UploadResult} (resolved : session.resolve package upload = .ok (next, result)) :
    ∃ document,
      prepared session.settings package upload.watermark =
        .ok (document, result.validationError) ∧
      Extraction.ofSource (.memory document) = .ok result.extraction ∧
      result.routing = Routing.ofTokens result.extraction.tokens
        (Catalogs.entriesOf upload.catalogs.placeholders) session.settings session.genericList ∧
      result.fieldTypes = Catalogs.entriesOf upload.catalogs.fieldTypes ∧
      result.placeholderTypes = Catalogs.entriesOf upload.catalogs.placeholderTypes ∧
      result.catalogErrors = upload.catalogs.errors ∧
      next = { session with
        genericList := merge (session.genericList ++ result.routing.genericList)
        fieldTypes := result.fieldTypes
        placeholderTypes := result.placeholderTypes
        journal := some (Journal.create result.routing.placeholders (some session.settings)
          historyLimit)
        document := some document } := by
  unfold resolve at resolved
  obtain ⟨⟨document, validationError⟩, prepared_eq, resolved⟩ := bind_eq_ok.mp resolved
  dsimp only at resolved
  split at resolved
  · next extraction extracted =>
      cases resolved
      exact ⟨document, prepared_eq, extracted, rfl, rfl, rfl, rfl, rfl⟩
  · cases resolved

/-- A processed upload was read while the session was open, and resolved. -/
theorem process_eq_ok_some {session next : Session} {upload : Upload} {result : UploadResult}
    (processed : session.process upload = .ok (next, some result)) :
    upload.closesMeanwhile = false ∧ session.isAlive = true ∧
      ∃ package, upload.read = .ok package ∧
        session.resolve package upload = .ok (next, result) := by
  unfold process at processed
  cases closes : upload.closesMeanwhile with
  | true =>
      rw [closes] at processed
      cases processed
  | false =>
      simp only [closes, Bool.false_eq_true, if_false] at processed
      split at processed
      · cases processed
      · next alive =>
          refine ⟨rfl, by simpa using alive, ?_⟩
          split at processed
          · cases processed
          · next package read_eq =>
              split at processed
              · next next' result' resolved =>
                  cases processed
                  exact ⟨package, read_eq, resolved⟩
              · cases processed

/-- An upload without a result closes the session at most. -/
theorem process_eq_ok_none {session next : Session} {upload : Upload}
    (processed : session.process upload = .ok (next, none)) :
    next = session ∨ next = session.close := by
  unfold process at processed
  cases closes : upload.closesMeanwhile with
  | true =>
      rw [closes] at processed
      cases processed
      exact .inr rfl
  | false =>
      simp only [closes, Bool.false_eq_true, if_false] at processed
      split at processed
      · cases processed
        exact .inl rfl
      · split at processed
        · cases processed
        · split at processed <;> cases processed

/-- What a processed upload leaves behind: the tokens of the document are routed, and
everything that is to be entered lies in a pool. -/
theorem outcome_of_process {session next : Session} {upload : Upload} {result : UploadResult}
    (processed : session.process upload = .ok (next, some result)) :
    ∃ document journal,
      Extraction.ofSource (.memory document) = .ok result.extraction ∧
      result.routing = Routing.ofTokens result.extraction.tokens
        (Catalogs.entriesOf upload.catalogs.placeholders) session.settings session.genericList ∧
      journal.arrangement = Arrangement.start result.routing.inputList ∧
      next = { session with
        genericList := merge (session.genericList ++ result.routing.genericList)
        fieldTypes := result.fieldTypes
        placeholderTypes := result.placeholderTypes
        journal := some journal
        document := some document } := by
  obtain ⟨_, _, package, _, resolved⟩ := process_eq_ok_some processed
  obtain ⟨document, _, extracted, routing_eq, _, _, _, next_eq⟩ := resolve_eq_ok resolved
  refine ⟨document, _, extracted, routing_eq, ?_, next_eq⟩
  rw [routing_eq, Routing.inputList_ofTokens]
  rfl

/-- An accepted command goes to the arrangement of the journal. -/
theorem dispatch_eq_ok {session next : Session} {fields : Record.Fields}
    (dispatched : session.dispatch fields = .ok next) :
    ∃ journal journal', session.journal = some journal ∧ journal.dispatch fields = .ok journal' ∧
      next = { session with journal := some journal' } := by
  unfold dispatch at dispatched
  obtain ⟨journal, organizer_eq, dispatched⟩ := bind_eq_ok.mp dispatched
  unfold organizer at organizer_eq
  split at organizer_eq
  · next found =>
      cases organizer_eq
      split at dispatched
      · next journal' accepted =>
          cases dispatched
          exact ⟨journal, journal', found, accepted, rfl⟩
      · cases dispatched
  · cases organizer_eq

end Session

namespace SessionRun

/-- What holds of every session in use: no generic data is for master folders only, and
an arrangement arranges the input list of the upload processed last, the tokens of
which are settled. -/
structure Routed (settings : Settings) (run : SessionRun) : Prop where
  settings_eq : run.session.settings = settings
  generic_category : ∀ p ∈ run.session.genericList,
    settings.categoryOf p.placeholderTypeId ≠ .masterFolderOnly
  arranged : ∀ journal, run.session.journal = some journal →
    ∃ upload result, run.last = some (upload, result) ∧
      Arrangement.Arranges result.routing.inputList journal.arrangement ∧
      Routing.Settled settings (Catalogs.entriesOf upload.catalogs.placeholders)
        result.extraction.tokens run.session.genericList result.routing.inputList

theorem routed_start (settings : Settings) : Routed settings { session := { settings } } where
  settings_eq := rfl
  generic_category := by simp
  arranged := by simp

theorem Routed.process {settings : Settings} {run : SessionRun} (routed : run.Routed settings)
    {upload : Upload} {session : Session} {result : UploadResult}
    (processed : run.session.process upload = .ok (session, some result)) :
    Routed settings { session, last := some (upload, result) } := by
  obtain ⟨document, journal, extracted, routing_eq, arrangement_eq, rfl⟩ :=
    Session.outcome_of_process processed
  have settled := Routing.settled_ofTokens (Catalogs.entriesOf upload.catalogs.placeholders)
    settings (fun _ tokenMem => Extraction.isName_of_ofSource extracted tokenMem)
    routed.generic_category
  rw [routed.settings_eq] at routing_eq
  rw [← routing_eq] at settled
  refine ⟨routed.settings_eq, settled.generic_category, ?_⟩
  rintro _ ⟨⟩
  refine ⟨upload, result, rfl, ?_, settled⟩
  rw [arrangement_eq]
  exact Arrangement.arranges_start _

theorem Routed.dispatch {settings : Settings} {run : SessionRun} (routed : run.Routed settings)
    {fields : Record.Fields} {session : Session}
    (dispatched : run.session.dispatch fields = .ok session) :
    Routed settings { run with session } := by
  obtain ⟨journal, journal', journal_eq, accepted, rfl⟩ := Session.dispatch_eq_ok dispatched
  refine ⟨routed.settings_eq, routed.generic_category, ?_⟩
  rintro _ ⟨⟩
  obtain ⟨upload, result, last_eq, arranges, settled⟩ := routed.arranged journal journal_eq
  exact ⟨upload, result, last_eq,
    Arrangement.arranges_of_edit (Journal.edit_of_dispatch accepted) arranges, settled⟩

theorem Routed.next {settings : Settings} {run : SessionRun} (routed : run.Routed settings)
    (event : SessionEvent) : (run.next event).Routed settings := by
  have closed : Routed settings { run with session := run.session.close } :=
    ⟨routed.settings_eq, routed.generic_category, routed.arranged⟩
  cases event with
  | upload upload =>
      unfold SessionRun.next
      dsimp only
      split
      · next processed => exact routed.process processed
      · next processed =>
          rcases Session.process_eq_ok_none processed with rfl | rfl
          · exact routed
          · exact closed
      · exact routed
  | command fields =>
      unfold SessionRun.next
      dsimp only
      split
      · next dispatched => exact routed.dispatch dispatched
      · exact routed
  | close => exact closed

/-- The invariant holds after any events. -/
theorem routed_ofEvents (settings : Settings) (events : List SessionEvent) :
    (ofEvents settings events).Routed settings := by
  suffices ∀ run : SessionRun, run.Routed settings → (events.foldl next run).Routed settings from
    this _ (routed_start settings)
  induction events with
  | nil => exact fun _ routed => routed
  | cons event rest ih => exact fun run routed => ih (run.next event) (routed.next event)

/-- What is settled for a pool is settled for every arrangement of it. -/
theorem settled_held {settings : Settings} {catalog generic pool : List Placeholder}
    {tokens : List String} {a : Arrangement} (arranges : Arrangement.Arranges pool a)
    (settled : Routing.Settled settings catalog tokens generic pool) :
    Routing.Settled settings catalog tokens generic a.held := by
  have perm := arranges.tagsOf_held_perm
  exact {
    mem_arranged_iff := by
      intro tag tagMem
      rw [perm.mem_iff]
      exact settled.mem_arranged_iff tag tagMem
    arranged_subset := by
      intro tag tagMem
      exact settled.arranged_subset tag (perm.mem_iff.mp tagMem)
    arranged_nodup := perm.nodup_iff.mpr settled.arranged_nodup
    generic_nodup := settled.generic_nodup
    disjoint := by
      intro tag tagMem
      exact settled.disjoint (perm.mem_iff.mp tagMem)
    arranged_category := by
      intro p pMem
      obtain ⟨q, qMem, lasting_eq⟩ := arranges.exists_mem_pool pMem
      have id_eq : q.placeholderTypeId = p.placeholderTypeId :=
        congrArg Lasting.placeholderTypeId lasting_eq
      rw [← id_eq]
      exact settled.arranged_category q qMem
    generic_category := settled.generic_category }

/-- In every session in use that has an arrangement, a token of the template processed
last is arranged exactly when it is no generic data and the catalogue of that upload
does not withhold it. -/
theorem settled_of_run (settings : Settings) (events : List SessionEvent) {journal : Journal}
    (journal_eq : (ofEvents settings events).session.journal = some journal) :
    ∃ upload result, (ofEvents settings events).last = some (upload, result) ∧
      Routing.Settled settings (Catalogs.entriesOf upload.catalogs.placeholders)
        result.extraction.tokens (ofEvents settings events).session.genericList
        journal.arrangement.held := by
  obtain ⟨upload, result, last_eq, arranges, settled⟩ :=
    (routed_ofEvents settings events).arranged journal journal_eq
  exact ⟨upload, result, last_eq, settled_held arranges settled⟩

/-- A template with one paragraph. -/
def sampleTemplate (text : String) : Package :=
  .archive { entries := [("word/document.xml", Utf8.encodeString
    ("<w:p xmlns:w=\"http://schemas.openxmlformats.org/wordprocessingml/2006/main\"><w:t>"
      ++ text ++ "</w:t></w:p>"))] }

/-- Two uploads with a command between them; the second finds a tag that the first has
made generic data. -/
def sampleEvents : List SessionEvent :=
  [.upload {
      read := .ok (sampleTemplate "{A}{B}")
      catalogs := {
        placeholders := .ok [{ fullTagName := "A", placeholderTypeId := "generic-data" }] } },
    .command [("type", .str "toggle_select"), ("tag", .str "B")],
    .command [("type", .str "move_right")],
    .upload { read := .ok (sampleTemplate "{B}{A}{C}") },
    .command [("type", .str "toggle_select"), ("tag", .str "C")],
    .command [("type", .str "move_right")]]

theorem settled_of_sampleEvents :
    ∃ journal, (ofEvents {} sampleEvents).session.journal = some journal ∧
      ∃ upload result, (ofEvents {} sampleEvents).last = some (upload, result) ∧
        Routing.Settled {} (Catalogs.entriesOf upload.catalogs.placeholders)
          result.extraction.tokens (ofEvents {} sampleEvents).session.genericList
          journal.arrangement.held := by
  have arranged : (ofEvents {} sampleEvents).session.journal.isSome = true := by decide +kernel
  rcases Option.isSome_iff_exists.mp arranged with ⟨journal, journal_eq⟩
  exact ⟨journal, journal_eq, settled_of_run {} sampleEvents journal_eq⟩

end SessionRun

end Stencil
