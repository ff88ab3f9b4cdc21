import Stencil.Program
import Stencil.Proofs.Layout.Entries

/-!
# Parts of a run

A part of a run turns a report into a result or an ending, with a new report.  Up to the
schema a run adds nothing but lines to the log, and behind it nothing but the filled
template, so the texts that it puts out are those of one schema.
-/

namespace Stencil

/-- The text that was written into a file. -/
def Written.text? : Written → Option String
  | .text content => some content
  | .document _ => none

/-- The texts that a run has put out: what it has printed, and the texts of files. -/
def Report.texts (report : Report) : List String :=
  (if report.printed = "" then [] else [report.printed])
    ++ report.files.filterMap fun (_, written) => written.text?

namespace Program

/-- What a part of a run leads to, from a report on. -/
def exec {α : Type} (part : Run α) (report : Report) : Except Ending α × Report :=
  part.run.run report

section

variable {α β : Type}

@[simp]
theorem exec_pure (a : α) (report : Report) : exec (pure a) report = (.ok a, report) :=
  rfl

@[simp]
theorem exec_modify (change : Report → Report) (report : Report) :
    exec (modify change) report = (.ok (), change report) :=
  rfl

theorem exec_bind (first : Run α) (second : α → Run β) (report : Report) :
    exec (first >>= second) report =
      match exec first report with
      | (.ok a, after) => exec (second a) after
      | (.error ending, after) => (.error ending, after) := by
  change (ExceptT.bindCont second (first report).1) (first report).2 = _
  rcases outcome : first report with ⟨result, after⟩
  have exec_eq : exec first report = (result, after) := outcome
  rw [exec_eq]
  cases result with
  | error ending => rfl
  | ok a => rfl

/-- A run goes on with what a part has led to. -/
theorem exec_bind_of_ok {first : Run α} {second : α → Run β} {report after : Report} {a : α}
    (leads : exec first report = (.ok a, after)) :
    exec (first >>= second) report = exec (second a) after := by
  rw [exec_bind, leads]

/-- A run ends with the part that ends it. -/
theorem exec_bind_of_error {first : Run α} {second : α → Run β} {report after : Report}
    {ending : Ending} (ends : exec first report = (.error ending, after)) :
    exec (first >>= second) report = (.error ending, after) := by
  rw [exec_bind, ends]

/-- Two parts succeed after each other when the second does from where the first has led. -/
theorem exec_bind_eq_ok {first : Run α} {second : α → Run β} {report after : Report} {b : β} :
    exec (first >>= second) report = (.ok b, after) ↔
      ∃ a between, exec first report = (.ok a, between) ∧
        exec (second a) between = (.ok b, after) := by
  rw [exec_bind]
  rcases exec first report with ⟨result, between⟩
  cases result with
  | error ending => simp
  | ok a =>
      constructor
      · intro succeeds
        exact ⟨a, between, rfl, succeeds⟩
      · rintro ⟨_, _, ⟨⟩, succeeds⟩
        exact succeeds

/-- A part adds nothing but lines to the log. -/
def OnlyLogs (report after : Report) : Prop :=
  after.printed = report.printed ∧ after.files = report.files

theorem OnlyLogs.texts_eq {report after : Report} (logs : OnlyLogs report after) :
    after.texts = report.texts := by
  rcases logs with ⟨printed_eq, files_eq⟩
  rw [Report.texts, Report.texts, printed_eq, files_eq]

theorem OnlyLogs.trans {first second third : Report} (before : OnlyLogs first second)
    (behind : OnlyLogs second third) : OnlyLogs first third :=
  ⟨behind.1.trans before.1, behind.2.trans before.2⟩

theorem exec_warn (text : String) (report : Report) :
    ∃ after, exec (warn text) report = (.ok (), after) ∧ OnlyLogs report after :=
  ⟨_, rfl, rfl, rfl⟩

/-- A failure is logged and ends the run with an exit code that tells of it. -/
theorem exec_fail (text : String) (report : Report) :
    ∃ after, exec (fail text : Run α) report = (.error (.exit 1), after) ∧ OnlyLogs report after :=
  ⟨_, rfl, rfl, rfl⟩

theorem exec_forM_warn (texts : α → String) (items : List α) (report : Report) :
    ∃ after, exec (items.forM fun item => warn (texts item)) report = (.ok (), after) ∧
      OnlyLogs report after := by
  induction items generalizing report with
  | nil => exact ⟨report, rfl, rfl, rfl⟩
  | cons item rest ih =>
      obtain ⟨between, warned, logs⟩ := exec_warn (texts item) report
      obtain ⟨after, rest_eq, restLogs⟩ := ih between
      refine ⟨after, ?_, logs.trans restLogs⟩
      change exec (warn (texts item) >>= fun _ => rest.forM fun item => warn (texts item)) _ = _
      rw [exec_bind_of_ok warned, rest_eq]

end

/-- An upload that is accepted yields its session and possibly warnings. -/
theorem exec_upload {session next : Session} {input : Upload} {result : UploadResult}
    (processed : session.process input = .ok (next, some result))
    (valid : result.validationError = none) (report : Report) :
    ∃ after, exec (upload session input) report = (.ok next, after) ∧ OnlyLogs report after := by
  unfold upload
  rw [processed]
  simp only [valid]
  obtain ⟨between, warned, logs⟩ := exec_forM_warn
    (fun error : String × String =>
      "Continuing without the " ++ error.1 ++ " catalog: " ++ error.2)
    result.catalogErrors report
  rw [exec_bind_of_ok warned]
  split
  · obtain ⟨after, warned, lastLogs⟩ := exec_warn
      ("Unreadable parts skipped: " ++ ", ".intercalate result.extraction.failedParts) between
    refine ⟨after, ?_, logs.trans lastLogs⟩
    rw [exec_bind_of_ok warned, exec_pure]
  · exact ⟨between, rfl, logs⟩

theorem exec_readLayout_none (files : Files) (report : Report) :
    exec (readLayout files "") report = (.ok [], report) :=
  rfl

theorem exec_arrange_none (a : Arrangement) (report : Report) :
    exec (arrange a []) report = (.ok (Layout.arrange (Layout.whole a) a), report) :=
  rfl

/-- A run carries out a layout in which no entry names what is left for it an even number of
times: the steps are those that it asks for, what it does not name stays in the
pool, and nothing but warnings is told. -/
theorem exec_arrange_of_namesOddly {a : Arrangement} {values : List Json}
    {entries : List LayoutEntry} (filled : values ≠ [])
    (read : Layout.readEntries values = (entries, none)) (unstarted : a.steps = [])
    (unselected : a.selected = []) (odd : Layout.NamesOddly entries a.pool) (report : Report) :
    ∃ after, OnlyLogs report after ∧
      exec (arrange a values) report =
        (.ok { a with
          pool := Layout.leftOver entries a.pool
          steps := Layout.stepsFrom 1 entries a.pool }, after) := by
  have given : values.isEmpty = false := by simpa using filled
  have arranged := Layout.arrange_of_namesOddly unselected odd
  simp only [unstarted, List.nil_append, List.length_nil] at arranged
  obtain ⟨after, warned, logs⟩ := exec_forM_warn id (Layout.reports entries a) report
  refine ⟨after, logs, ?_⟩
  simp only [arrange, given, read, Bool.false_eq_true, if_false]
  rw [← arranged]
  exact exec_bind_of_ok warned

/-- A layout with an unknown tag, a tag that was used before, and tags that are repeated. -/
def sampleLayout : List Json :=
  [.obj [("title", .str "One"), ("fields", .arr [.str "B", .str "Z"])],
    .obj [("title", .str "Two"), ("fields", .arr [.str "B", .str "B"])],
    .obj [("title", .str ""), ("fields", .arr [.str "C.d", .str "B", .str "A", .str "C.d",
      .str "C.d"])]]

theorem exec_arrange_sampleLayout :
    ∃ arranged after, exec (arrange (.start Layout.samplePool) sampleLayout) {} =
        (.ok arranged, after) ∧
      arranged.steps.map (fun step => (step.title, step.tags, step.isGroup)) =
        [(.str "One", ["B"], false), (.str "Step 2", ["A", "C.d"], true)] ∧
      arranged.poolTags = ["E"] := by
  have read : Layout.readEntries sampleLayout =
      ([{ fields := ["B", "Z"], title := .str "One" }, { fields := ["B", "B"], title := .str "Two" },
        { fields := ["C.d", "B", "A", "C.d", "C.d"], title := .str "" }], none) := by
    decide +kernel
  obtain ⟨after, _, arranged⟩ := exec_arrange_of_namesOddly (a := .start Layout.samplePool)
    (by decide) read rfl rfl (by decide +kernel) {}
  refine ⟨_, after, arranged, ?_, ?_⟩
  · decide +kernel
  · decide +kernel

theorem exec_compile {session : Session} {documentId : String} {preview : Bool} {today : Date}
    {schema : Schema} (compiled : session.compile documentId preview none today = .ok schema)
    (report : Report) :
    exec (compile session documentId preview today) report = (.ok schema, report) := by
  simp [compile, compiled]

/-- Tells whether a file can be written at a path: the path leads to a place within a
folder, and not to a folder. -/
def isWritable (files : Files) (path : String) : Bool :=
  let path := FilePath.ofString path
  !files.hasFolder path && !files.leadsBeyondFile path &&
    files.hasFolder { path with components := path.components.dropLast }

theorem exec_write_of_writable {files : Files} {path : String} (shown : String)
    (content : Written) (writable : isWritable files path = true) (report : Report) :
    exec (write files path shown content) report =
      (.ok (), { report with
        files := report.files ++ [((FilePath.ofString path).text, content)] }) := by
  simp only [isWritable, Bool.and_eq_true, Bool.not_eq_true'] at writable
  rcases writable with ⟨⟨noFolder, notBeyond⟩, inFolder⟩
  simp [write, noFolder, notBeyond, inFolder]

/-- A file that cannot be written makes the run fail. -/
theorem exec_write_of_not_writable {files : Files} {path : String} (shown : String)
    (content : Written) (unwritable : isWritable files path = false) (report : Report) :
    ∃ ending after, exec (write files path shown content) report = (.error ending, after) ∧
      ending ≠ .exit 0 ∧ OnlyLogs report after := by
  unfold write
  dsimp only
  by_cases isFolder : files.hasFolder (FilePath.ofString path) = true
  · rw [if_pos isFolder]
    exact ⟨.escape .isFolder, report, rfl, by simp, rfl, rfl⟩
  · rw [if_neg isFolder]
    by_cases beyond : files.leadsBeyondFile (FilePath.ofString path) = true
    · rw [if_pos beyond]
      exact ⟨.escape .isNoFolder, report, rfl, by simp, rfl, rfl⟩
    · rw [if_neg beyond]
      have noParent : files.hasFolder { FilePath.ofString path with
          components := (FilePath.ofString path).components.dropLast } = false := by
        simpa [isWritable, isFolder, beyond] using unwritable
      simp only [noParent, Bool.not_false, if_true]
      obtain ⟨after, failed, logs⟩ := exec_fail (α := Unit)
        ("Could not load input: " ++ missingFileText shown) report
      exact ⟨.exit 1, after, exec_bind_of_error failed, by simp, logs⟩

/-- The texts that a schema is put out as: printed, or written where that is possible. -/
def textsOf (files : Files) (output : String) (schema : Schema) : List String :=
  if output = "" then [schema.text ++ "\n"]
  else if isWritable files output then [schema.text] else []

theorem textsOf_ne_nil {files : Files} {output : String}
    (possible : output = "" ∨ isWritable files output = true) (schema : Schema) :
    textsOf files output schema ≠ [] := by
  by_cases printing : output = ""
  · simp [textsOf, printing]
  · simp [textsOf, printing, possible.resolve_left printing]

/-- A schema is put out when it is to be printed or its file can be written. -/
theorem exec_writeSchema {report : Report} (blank : OnlyLogs {} report) {files : Files}
    {output : String} (possible : output = "" ∨ isWritable files output = true)
    (schema : Schema) :
    ∃ after, exec (writeSchema files output schema) report = (.ok (), after) ∧
      after.texts = textsOf files output schema := by
  rcases blank with ⟨printed_eq, files_eq⟩
  by_cases printing : output = ""
  · have output_eq : (output == "") = true := by simpa using printing
    refine ⟨_, by rw [writeSchema, if_pos output_eq, exec_modify], ?_⟩
    simp [Report.texts, textsOf, printing, printed_eq, files_eq, String.append_eq_empty_iff]
  · have writable := possible.resolve_left printing
    have output_eq : ¬(output == "") = true := by simpa using printing
    refine ⟨_, by rw [writeSchema, if_neg output_eq, exec_write_of_writable _ _ writable], ?_⟩
    simp [Report.texts, textsOf, printing, writable, printed_eq, files_eq, Written.text?]

/-- A schema whose file cannot be written makes the run fail without any text. -/
theorem exec_writeSchema_of_not_writable {report : Report} (blank : OnlyLogs {} report)
    {files : Files} {output : String} (named : output ≠ "")
    (unwritable : isWritable files output = false) (schema : Schema) :
    ∃ ending after, exec (writeSchema files output schema) report = (.error ending, after) ∧
      ending ≠ .exit 0 ∧ after.texts = textsOf files output schema := by
  have output_eq : ¬(output == "") = true := by simpa using named
  obtain ⟨ending, after, failed, ending_ne, logs⟩ := exec_write_of_not_writable
    (FilePath.ofString output).text (.text schema.text) unwritable report
  refine ⟨ending, after, by rw [writeSchema, if_neg output_eq, failed], ending_ne, ?_⟩
  rw [(blank.trans logs).texts_eq]
  simp [textsOf, named, unwritable, Report.texts]

/-- A part leaves the texts that a run has put out as they are. -/
def KeepsTexts {α : Type} (part : Run α) : Prop :=
  ∀ report, (exec part report).2.texts = report.texts

theorem KeepsTexts.bind {α β : Type} {first : Run α} {second : α → Run β}
    (firstKeeps : KeepsTexts first) (secondKeeps : ∀ a, KeepsTexts (second a)) :
    KeepsTexts (first >>= second) := by
  intro report
  have keeps := firstKeeps report
  rw [exec_bind]
  rcases outcome : exec first report with ⟨result, after⟩
  rw [outcome] at keeps
  cases result with
  | error ending => exact keeps
  | ok a => exact (secondKeeps a after).trans keeps

theorem keepsTexts_fail {α : Type} (text : String) : KeepsTexts (fail text : Run α) := by
  intro report
  obtain ⟨after, failed, logs⟩ := exec_fail (α := α) text report
  rw [failed]
  exact logs.texts_eq

theorem keepsTexts_failFilling {α : Type} (error : FillError) :
    KeepsTexts (failFilling error : Run α) := by
  unfold failFilling
  split
  · exact fun _ => rfl
  · exact fun _ => rfl
  · exact fun _ => rfl
  · exact fun _ => rfl
  · exact keepsTexts_fail _

theorem keepsTexts_compile (session : Session) (documentId : String) (preview : Bool)
    (today : Date) : KeepsTexts (compile session documentId preview today) := by
  unfold compile
  split
  · exact fun _ => rfl
  · exact keepsTexts_fail _

/-- A document that is written is no text. -/
theorem keepsTexts_write_document (files : Files) (path shown : String)
    (document : Word.Document) : KeepsTexts (write files path shown (.document document)) := by
  intro report
  cases writable : isWritable files path with
  | true =>
      rw [exec_write_of_writable shown _ writable]
      simp [Report.texts, Written.text?]
  | false =>
      obtain ⟨ending, after, failed, _, logs⟩ :=
        exec_write_of_not_writable shown (.document document) writable report
      rw [failed]
      exact logs.texts_eq

/-- Whatever comes of the filled template, the texts that were put out before stay. -/
theorem keepsTexts_writePreview (files : Files) (path : String) (session : Session)
    {schema : Run Schema} (schemaKeeps : KeepsTexts schema) :
    KeepsTexts (writePreview files path session schema) := by
  unfold writePreview
  split
  · exact fun _ => rfl
  · apply schemaKeeps.bind
    intro schema
    split
    · exact keepsTexts_failFilling _
    · exact keepsTexts_write_document files path path _

end Program

end Stencil
