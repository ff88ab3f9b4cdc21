import Stencil.Proofs.Layout
import Stencil.Proofs.Placeholder.ValueType
import Stencil.Proofs.Program.Execution
import Stencil.Proofs.Schema.Texts
import Stencil.Proofs.Session.Compile

/-!
# The form of a run

A run uploads one template into a session of its own.  Without a layout all that is to
be entered moves into one step, which compiles because its placeholders come from
tokens and catalogue files.  So the form that is put out has every tag of the input
list once, as has every form that is compiled after commands of an operator.
-/

namespace Stencil

open Placeholder

namespace Schema

/-- A form of everything: without any step when there are no tags, and otherwise with a
single step that has each of them once. -/
def HoldsInOneStep (tags : List String) (schema : Schema) : Prop :=
  if tags = [] then schema.data = []
  else ∃ step, schema.data = [step] ∧ step.tags.Perm tags ∧ step.tags.Nodup

/-- The layout with one step leads to a form of everything. -/
theorem compile_arrange_whole (context : CompileContext) (documentId : String)
    {pool : List Placeholder} (nodup : (tagsOf pool).Nodup) (typed : ∀ p ∈ pool, p.IsTextTyped) :
    ∃ schema, schema.HoldsInOneStep (tagsOf pool) ∧
      compile context documentId
        (Layout.arrange (Layout.whole (.start pool)) (.start pool)).steps = .ok schema := by
  rw [Layout.steps_arrange_whole_start nodup]
  by_cases empty : pool = []
  · rw [if_pos empty]
    refine ⟨_, ?_, rfl⟩
    simp [HoldsInOneStep, empty, ofSteps]
  · have filled : tagsOf pool ≠ [] := by simpa [tagsOf] using empty
    rw [if_neg empty]
    let step := (Arrangement.start pool).wholeStep
    have compiled :
        compile context documentId [step] = .ok (ofSteps context documentId [step]) := by
      apply compile_of_isTextTyped
      · intro other otherMem
        obtain rfl := List.mem_singleton.mp otherMem
        exact ⟨_, rfl⟩
      · intro other otherMem
        obtain rfl := List.mem_singleton.mp otherMem
        exact Arrangement.isTextTyped_of_mem_numbered typed
    have perm : (FormStep.ofStep context step).tags.Perm (tagsOf pool) := by
      refine (FormStep.tags_ofStep_perm context step).trans ?_
      exact List.Perm.of_eq (Arrangement.tagsOf_numbered pool)
    refine ⟨_, ?_, compiled⟩
    rw [HoldsInOneStep, if_neg filled]
    exact ⟨_, rfl, perm, perm.nodup_iff.mpr nodup⟩

end Schema

namespace Session

/-- The tags to enter differ, and their placeholders have texts as value types if those of
the catalogue have. -/
theorem inputList_of_process {session next : Session} {upload : Upload} {result : UploadResult}
    (processed : session.process upload = .ok (next, some result))
    (catalogTyped : ∀ entry ∈ Catalogs.entriesOf upload.catalogs.placeholders,
      entry.IsTextTyped) :
    (tagsOf result.routing.inputList).Nodup ∧ ∀ p ∈ result.routing.inputList, p.IsTextTyped := by
  obtain ⟨document, journal, _, routing_eq, _, _⟩ := outcome_of_process processed
  rw [routing_eq]
  constructor
  · exact Routing.nodup_inputList_ofTokens
  · intro p pMem
    rw [Routing.inputList_ofTokens] at pMem
    exact Routing.isTextTyped_of_mem_ofTokens catalogTyped p (List.mem_of_mem_filter pMem)

/-- Outside of a preview the form of a session is that of its steps alone. -/
theorem compile_eq_of_steps {session : Session} {journal : Journal}
    (journal_eq : session.journal = some journal) {documentId : String} {today : Date}
    {schema : Schema}
    (compiled : Schema.compile
      { fieldTypes := session.fieldTypes, settings := session.settings, today } documentId
        journal.arrangement.steps = .ok schema) :
    session.compile documentId false none today = .ok schema := by
  have organized : session.organizer = .ok journal := by
    unfold organizer
    rw [journal_eq]
  have steps_compiled : Schema.compile
      { preview := false, fieldTypes := session.fieldTypes, settings := session.settings, today }
      documentId (session.stepsToCompile journal.arrangement.steps false) = .ok schema := compiled
  unfold compile
  refine bind_eq_ok.mpr ⟨journal, organized, ?_⟩
  simp only [Option.getD_none, steps_compiled]
  rfl

end Session

namespace Program

/-- The settings of a run, from its settings file and the variables that are set. -/
def settings (arguments : Arguments) (around : Surroundings) : Run Settings := do
  loadedSettings around.environment (← settingsText around.files arguments.envFile)

/-- What a run uploads. -/
def uploadOf (arguments : Arguments) (files : Files) : Upload :=
  { read := readTemplate files (FilePath.ofString arguments.template)
    watermark := arguments.watermark
    catalogs := Catalogs.ofFiles files
      { placeholders := arguments.placeholders
        placeholderTypes := arguments.placeholderTypes
        fieldTypes := arguments.fieldTypes } }

/-- A run that accepts its template: its settings can be loaded, and the upload leads to
a session and a result without objections. -/
structure Accepts (arguments : Arguments) (around : Surroundings) (settings : Settings)
    (session : Session) (result : UploadResult) : Prop where
  named : arguments.template ≠ ""
  loaded : exec (Program.settings arguments around) {} = (.ok settings, {})
  processed : Session.process { settings } (uploadOf arguments around.files) =
    .ok (session, some result)
  valid : result.validationError = none

/-- The template of a run that accepts it is there. -/
theorem Accepts.found {arguments : Arguments} {around : Surroundings} {settings : Settings}
    {session : Session} {result : UploadResult}
    (accepts : Accepts arguments around settings session result) :
    (around.files.find? (FilePath.ofString arguments.template)).isNone = false := by
  obtain ⟨_, _, package, read_eq, _⟩ := Session.process_eq_ok_some accepts.processed
  simp only [uploadOf, readTemplate] at read_eq
  split at read_eq
  · next content found => simp [found]
  · cases read_eq

/-- Without a layout and without a preview a run that accepts its template comes to a
form of everything, having logged at most, and goes on to put it out. -/
theorem exec_runWith {arguments : Arguments} {around : Surroundings} {settings : Settings}
    {session : Session} {result : UploadResult}
    (accepts : Accepts arguments around settings session result)
    (noLayout : arguments.steps = "") (noPreview : arguments.preview = false) :
    ∃ report arranged schema, OnlyLogs {} report ∧
      schema.HoldsInOneStep (tagsOf result.routing.inputList) ∧
      exec (runWith arguments around) {} =
        exec (do
          writeSchema around.files arguments.output schema
          writePreview around.files arguments.previewDocument arranged
            (compile arranged arguments.documentId true around.today)) report := by
  obtain ⟨text, between, text_eq, settings_eq⟩ := exec_bind_eq_ok.mp accepts.loaded
  obtain ⟨report, uploaded, logs⟩ := exec_upload accepts.processed accepts.valid {}
  obtain ⟨_, journal, _, _, arrangement_eq, session_eq⟩ :=
    Session.outcome_of_process accepts.processed
  have journal_eq : session.journal = some journal := by rw [session_eq]
  obtain ⟨nodup, typed⟩ :=
    Session.inputList_of_process accepts.processed Catalogs.isTextTyped_of_ofFiles
  let arrangement := Layout.arrange (Layout.whole journal.arrangement) journal.arrangement
  let arranged : Session := { session with journal := some { journal with arrangement } }
  obtain ⟨schema, holds, compiled⟩ := Schema.compile_arrange_whole
    { fieldTypes := session.fieldTypes, settings := session.settings, today := around.today }
    arguments.documentId nodup typed
  rw [← arrangement_eq] at compiled
  have session_compiled : arranged.compile arguments.documentId false none around.today =
      .ok schema := Session.compile_eq_of_steps rfl compiled
  refine ⟨report, arranged, schema, logs, holds, ?_⟩
  have unnamed : (arguments.template == "") = false := by simpa using accepts.named
  -- from here on the run is executed part by part
  unfold runWith
  simp only [unnamed, accepts.found, Bool.false_or, Bool.false_and, Bool.false_eq_true, if_false]
  rw [exec_bind_of_ok text_eq, exec_bind_of_ok settings_eq]
  unfold uploadOf at uploaded
  rw [exec_bind_of_ok uploaded, noLayout, exec_bind_of_ok (exec_readLayout_none _ _)]
  simp only [journal_eq]
  rw [exec_bind_of_ok (exec_arrange_none _ _), noPreview,
    exec_bind_of_ok (exec_compile session_compiled _)]

theorem report_of_run {texts : List String} {arguments : Arguments}
    (parsed : CommandLine.parse texts = .run arguments) (around : Surroundings) :
    (run texts around).2 = (exec (runWith arguments around) {}).2 := by
  unfold run
  rw [parsed]
  dsimp only
  split
  · next outcome => exact (congrArg Prod.snd outcome).symm
  · next outcome => exact (congrArg Prod.snd outcome).symm

theorem ending_of_run {texts : List String} {arguments : Arguments} {around : Surroundings}
    {ending : Ending} {report : Report} (parsed : CommandLine.parse texts = .run arguments)
    (ends : exec (runWith arguments around) {} = (.error ending, report)) :
    (run texts around).1 = ending := by
  unfold exec at ends
  unfold run
  rw [parsed]
  dsimp only
  rw [ends]

/-- Without a layout and without a preview a run that accepts its template puts out a form
of everything, unless its file cannot be written, in which case it fails. -/
theorem run_of_accepts {texts : List String} {arguments : Arguments} {around : Surroundings}
    {settings : Settings} {session : Session} {result : UploadResult}
    (parsed : CommandLine.parse texts = .run arguments)
    (accepts : Accepts arguments around settings session result)
    (noLayout : arguments.steps = "") (noPreview : arguments.preview = false) :
    ∃ schema : Schema, schema.HoldsInOneStep (tagsOf result.routing.inputList) ∧
      (run texts around).2.texts = textsOf around.files arguments.output schema ∧
      (textsOf around.files arguments.output schema = [] → (run texts around).1 ≠ .exit 0) := by
  obtain ⟨report, arranged, schema, logs, holds, exec_eq⟩ :=
    exec_runWith accepts noLayout noPreview
  refine ⟨schema, holds, ?_⟩
  by_cases possible : arguments.output = "" ∨ isWritable around.files arguments.output = true
  · obtain ⟨after, written, texts_eq⟩ := exec_writeSchema logs possible schema
    rw [exec_bind_of_ok written] at exec_eq
    have keeps : KeepsTexts (writePreview around.files arguments.previewDocument arranged
        (compile arranged arguments.documentId true around.today)) :=
      keepsTexts_writePreview _ _ _ (keepsTexts_compile _ _ _ _)
    constructor
    · rw [report_of_run parsed, exec_eq, keeps after, texts_eq]
    · exact fun nothing => absurd nothing (textsOf_ne_nil possible schema)
  · obtain ⟨named, notWritable⟩ := not_or.mp possible
    obtain ⟨ending, after, failed, ending_ne, texts_eq⟩ :=
      exec_writeSchema_of_not_writable logs named (by simpa using notWritable) schema
    rw [exec_bind_of_error failed] at exec_eq
    constructor
    · rw [report_of_run parsed, exec_eq, texts_eq]
    · intro _
      rw [ending_of_run parsed exec_eq]
      exact ending_ne

/-- From an upload to a form no tag is lost or doubled.  After an upload and any commands the
tags of pool and form are those of the input list, and of the generic data where it is
included, each once; and a run without layout and preview puts out a form of the whole
input list. -/
theorem tags_of_upload_compiled_once :
    (∀ settings events upload session result,
      (SessionRun.ofEvents settings events).session.process upload = .ok (session, some result) →
      ∀ commands documentId preview includesGeneric today schema,
        (session.dispatchAll commands).compile documentId preview includesGeneric today =
          .ok schema →
        ∃ journal, (session.dispatchAll commands).journal = some journal ∧
          (journal.arrangement.poolTags ++ schema.tags).Perm
            (tagsOf result.routing.inputList ++
              session.includedTags (includesGeneric.getD preview)) ∧
          (journal.arrangement.poolTags ++ schema.tags).Nodup) ∧
    (∀ texts arguments around settings session result,
      CommandLine.parse texts = .run arguments →
      Accepts arguments around settings session result →
      arguments.steps = "" → arguments.preview = false →
      ∃ journal schema, session.journal = some journal ∧
        journal.arrangement.pool = result.routing.inputList ∧
        schema.HoldsInOneStep (tagsOf result.routing.inputList) ∧
        (run texts around).2.texts = textsOf around.files arguments.output schema ∧
        (textsOf around.files arguments.output schema = [] → (run texts around).1 ≠ .exit 0)) := by
  constructor
  · intro settings events upload session result processed commands documentId preview
      includesGeneric today schema compiled
    have routed := ((SessionRun.routed_ofEvents settings events).process processed).dispatchAll
      commands
    obtain ⟨journal, upload', result', journal_eq, last_eq, perm, nodup⟩ :=
      routed.tags_of_compile compiled
    cases last_eq
    refine ⟨journal, journal_eq, ?_, nodup⟩
    simpa only [Session.includedTags, Session.genericList_dispatchAll] using perm
  · intro texts arguments around settings session result parsed accepts noLayout noPreview
    obtain ⟨_, journal, _, _, arrangement_eq, session_eq⟩ :=
      Session.outcome_of_process accepts.processed
    have journal_eq : session.journal = some journal := by rw [session_eq]
    obtain ⟨schema, holds, texts_eq, failing⟩ := run_of_accepts parsed accepts noLayout noPreview
    refine ⟨journal, schema, journal_eq, ?_, holds, texts_eq, failing⟩
    rw [arrangement_eq]
    rfl

/-- A command that selects a tag and one that moves it into a step. -/
def sampleCommands : List Record.Fields :=
  [[("type", .str "toggle_select"), ("tag", .str "C")], [("type", .str "move_right")]]

/-- Arguments that name a template and nothing else. -/
def sampleArguments : Arguments := { template := "t.docx" }

/-- A sample template in a file. -/
def sampleSurroundings : Surroundings :=
  { files := { contents := [("t.docx", .package (SessionRun.sampleTemplate "{B}{A}{C}"))] } }

theorem accepts_sample : ∃ session result,
    Accepts sampleArguments sampleSurroundings {} session result := by
  have loads : (Settings.Variables.loadSettings [] none).toOption = some {} := by decide +kernel
  have accepted :
      ((Session.process {} (uploadOf sampleArguments sampleSurroundings.files)).toOption.bind
        fun outcome => outcome.2.map (·.validationError)) = some none := by decide +kernel
  have loaded : exec (settings sampleArguments sampleSurroundings) {} = (.ok {}, {}) := by
    refine exec_bind_eq_ok.mpr ⟨none, {}, rfl, ?_⟩
    change exec (loadedSettings [] none) {} = _
    cases read : Settings.Variables.loadSettings [] none with
    | error error => simp [read, Except.toOption] at loads
    | ok found =>
        obtain rfl : found = {} := by simpa [read, Except.toOption] using loads
        simp [loadedSettings, read]
  rcases processed : Session.process {}
      (uploadOf sampleArguments sampleSurroundings.files) with error | ⟨session, _ | result⟩
  · simp [processed, Except.toOption] at accepted
  · simp [processed, Except.toOption] at accepted
  · refine ⟨session, result, by decide, loaded, processed, ?_⟩
    simpa [processed, Except.toOption] using accepted

theorem tags_of_samples_compiled_once :
    (∃ session result schema journal,
      (SessionRun.ofEvents {} (SessionRun.sampleEvents.take 3)).session.process
        { read := .ok (SessionRun.sampleTemplate "{B}{A}{C}") } = .ok (session, some result) ∧
      (session.dispatchAll sampleCommands).compile "1" true none ⟨2024, 3, 15⟩ = .ok schema ∧
      (session.dispatchAll sampleCommands).journal = some journal ∧
      (journal.arrangement.poolTags ++ schema.tags).Perm
        (tagsOf result.routing.inputList ++ session.includedTags true) ∧
      (journal.arrangement.poolTags ++ schema.tags).Nodup) ∧
    (∃ session result journal, ∃ schema : Schema,
      Accepts sampleArguments sampleSurroundings {} session result ∧
      session.journal = some journal ∧ journal.arrangement.pool = result.routing.inputList ∧
      schema.HoldsInOneStep (tagsOf result.routing.inputList) ∧
      (run ["--template", "t.docx"] sampleSurroundings).2.texts = [schema.text ++ "\n"]) := by
  constructor
  · have compiles :
        (((SessionRun.ofEvents {} (SessionRun.sampleEvents.take 3)).session.process
          { read := .ok (SessionRun.sampleTemplate "{B}{A}{C}") }).toOption.bind fun outcome =>
            outcome.2.bind fun _ =>
              ((outcome.1.dispatchAll sampleCommands).compile "1" true none
                ⟨2024, 3, 15⟩).toOption).isSome = true := by decide +kernel
    rcases processed : (SessionRun.ofEvents {} (SessionRun.sampleEvents.take 3)).session.process
        { read := .ok (SessionRun.sampleTemplate "{B}{A}{C}") } with error | ⟨session, _ | result⟩
    · rw [processed] at compiles
      cases compiles
    · rw [processed] at compiles
      cases compiles
    · rw [processed] at compiles
      change ((session.dispatchAll sampleCommands).compile "1" true none
        ⟨2024, 3, 15⟩).toOption.isSome = true at compiles
      cases compiled :
          (session.dispatchAll sampleCommands).compile "1" true none ⟨2024, 3, 15⟩ with
      | error error =>
          rw [compiled] at compiles
          cases compiles
      | ok schema =>
          obtain ⟨journal, journal_eq, perm, nodup⟩ := tags_of_upload_compiled_once.1
            _ _ _ _ _ processed _ _ _ _ _ _ compiled
          exact ⟨session, result, schema, journal, rfl, compiled, journal_eq, perm, nodup⟩
  · rcases accepts_sample with ⟨session, result, accepts⟩
    have parsed : CommandLine.parse ["--template", "t.docx"] = .run sampleArguments := by
      decide +kernel
    obtain ⟨journal, schema, journal_eq, pool_eq, holds, texts_eq, _⟩ :=
      tags_of_upload_compiled_once.2 _ _ _ _ _ _ parsed accepts rfl rfl
    exact ⟨session, result, journal, schema, accepts, journal_eq, pool_eq, holds, texts_eq⟩

end Program

end Stencil
