import Stencil.Proofs.Session.Toolkit

/-!
# Failures of an upload

An upload is meant to fail in one way only: by telling why the template cannot be used.
Parts that are no well-formed markup are skipped and reported.  `Breaks` gives the cases in
which an upload fails otherwise, whatever the tools are that it works with, and there are no
others.  Most of them need a watermark, since it is written and checked with less care than
the tokens are extracted.
-/

namespace Stencil

/-- Names of which one is that of a header or a footer with too many digits in its number. -/
def Part.HasLongNumber (names : List String) : Prop :=
  ∃ kind ∈ ["header", "footer"], ∃ name ∈ names, ∃ digits,
    Part.digits? kind name = some digits ∧ Part.digitLimit < digits.length

theorem Part.hasLongNumber_iff {names : List String} :
    Part.HasLongNumber names ↔ tooLongAmong? names ≠ none := by
  rw [HasLongNumber, tooLongAmong?, ne_eq, Option.or_eq_none_iff, not_and_or]
  simp [← tooLong?_ne_none_iff]

/-- Tells whether an upload comes to an answer or fails in the documented way. -/
def isDocumented {α : Type} : Except UploadFailure α → Bool
  | .ok _ => true
  | .error failure => failure.isDocumented

@[simp]
theorem isDocumented_ok {α : Type} (answer : α) : isDocumented (.ok answer) = true :=
  rfl

@[simp]
theorem isDocumented_error {α : Type} (failure : UploadFailure) :
    isDocumented (.error failure : Except UploadFailure α) = failure.isDocumented :=
  rfl

namespace Toolkit

variable (toolkit : Toolkit)

/-! ### What breaks an upload -/

/-- How an entry cannot be copied into the archive with the watermark. -/
inductive CopyFails (package : Package) (watermark : LooseText) (part : String) (entry : Entry) :
    UploadFailure → Prop
  /-- Its content cannot be read. -/
  | unread {fault : ToolFault} (fails : toolkit.content package entry.name = .error fault) :
      CopyFails package watermark part entry (.tool fault)
  /-- It is the part for the watermark, and is no text. -/
  | notText {content : Bytes} (isPart : entry.name = part)
      (read : toolkit.content package entry.name = .ok content)
      (undecoded : Utf8.decode? content = none) : CopyFails package watermark part entry .notText
  /-- The watermark is written into it, and has a lone half of a character. -/
  | loneHalf {content : Bytes} {text : List Char} (isPart : entry.name = part)
      (read : toolkit.content package entry.name = .ok content)
      (decoded : Utf8.decode? content = some text) (occurs : Watermark.token <:+: text)
      (lone : none ∈ watermark) : CopyFails package watermark part entry .notText
  /-- It cannot be written anew. -/
  | unwritten {content stamped : Bytes} {fault : ToolFault}
      (read : toolkit.content package entry.name = .ok content)
      (stamped_eq : stampEntry watermark part entry content = .ok stamped)
      (fails : toolkit.write entry stamped = .error fault) :
      CopyFails package watermark part entry (.tool fault)

/-- How a watermark cannot be written. -/
inductive StampFails (package : Package) (watermark : LooseText) (part : String) :
    UploadFailure → Prop
  /-- The entries cannot be listed. -/
  | unlisted {fault : ToolFault} (fails : toolkit.entries package = .error fault) :
      StampFails package watermark part (.tool fault)
  /-- The part is listed, and some entry cannot be copied. -/
  | uncopied {entries : List Entry} {failure : UploadFailure}
      (listed : toolkit.entries package = .ok entries) (holds : part ∈ entries.map (·.name))
      (first : FirstFails (toolkit.CopyFails package watermark part) entries failure) :
      StampFails package watermark part failure
  /-- All entries are copied, and the new archive cannot be closed. -/
  | unclosed {entries : List Entry} {copies : List (Entry × Bytes)} {fault : ToolFault}
      (listed : toolkit.entries package = .ok entries) (holds : part ∈ entries.map (·.name))
      (copied : entries.mapM (toolkit.copy package watermark part) = .ok copies)
      (fails : toolkit.close copies = .error fault) :
      StampFails package watermark part (.tool fault)

/-- What makes an upload fail in another way than documented while it is stamped. -/
inductive StampBreaks (settings : Settings) (package : Package) (watermark : LooseText) : Prop
  /-- The watermark cannot be written, and not because the archive is damaged. -/
  | unwritten {failure : UploadFailure}
      (fails : toolkit.StampFails package watermark settings.watermarkPart failure)
      (undamaged : ∀ report, failure ≠ .tool (.damaged report))
  /-- The package with its watermark does not open, for a reason that is not reported. -/
  | unopened {stamped : Package} {fault : ToolFault}
      (stamp_eq : toolkit.stamp package watermark settings.watermarkPart = .ok stamped)
      (fails : toolkit.opens stamped = .error fault) (unreported : fault.report? = none)

/-- The template that is kept, and from which the tokens are extracted. -/
inductive Keeps (settings : Settings) (package : Package) (watermark : LooseText) : Package → Prop
  | plain (blank : watermark = []) : Keeps settings package watermark package
  /-- An archive that is damaged is kept as it is. -/
  | damaged (given : watermark ≠ []) {report : String}
      (fails : toolkit.StampFails package watermark settings.watermarkPart
        (.tool (.damaged report))) : Keeps settings package watermark package
  | stamped (given : watermark ≠ []) {stamped : Package}
      (stamp_eq : toolkit.stamp package watermark settings.watermarkPart = .ok stamped) :
      Keeps settings package watermark stamped

/-- What makes an upload fail in another way than documented while tokens are extracted. -/
inductive ExtractionBreaks (document : Package) : Prop
  /-- The entries cannot be listed, for a reason that is not told. -/
  | unlisted {fault : ToolFault} (fails : toolkit.entries document = .error fault)
      (untold : fault.whileReading.isDocumented = false)
  /-- A header or a footer has a number that is too long. -/
  | longNumber {entries : List Entry} (listed : toolkit.entries document = .ok entries)
      (long : Part.HasLongNumber (entries.map (·.name)))
  /-- A text part cannot be read, for a reason that is not told. -/
  | unread {entries : List Entry} {fault : ToolFault}
      (listed : toolkit.entries document = .ok entries)
      (first : FirstFails (fun name fault => toolkit.content document name = .error fault)
        (Part.readingOrder (entries.map (·.name))) fault)
      (untold : fault.whileReading.isDocumented = false)
  /-- A text part cannot be parsed, and not because it is no markup. -/
  | unparsed {parts : List (String × Bytes)} {part : String × Bytes} {fault : ToolFault}
      (read : toolkit.parts document = .ok parts) (partMem : part ∈ parts)
      (fails : toolkit.parse part.2 = .error fault) (markup : fault ≠ .malformed)
      (value : ∀ report, fault ≠ .badValue report)

/-- What makes an upload fail in another way than documented. -/
inductive Breaks (settings : Settings) (package : Package) (watermark : LooseText) : Prop
  | stamping (given : watermark ≠ [])
      (breaks : toolkit.StampBreaks settings package watermark)
  | extracting {document : Package} (keeps : toolkit.Keeps settings package watermark document)
      (breaks : toolkit.ExtractionBreaks document)

variable {toolkit}

/-! ### Stamping -/

/-- A watermark breaks a text when it is written into it and has a lone half. -/
theorem toText?_replaceAll_eq_none_iff (watermark : LooseText) (text : List Char) :
    LooseText.toText? (Text.replaceAll (LooseText.ofText Watermark.token) watermark
        (LooseText.ofText text)) = none ↔
      Watermark.token <:+: text ∧ none ∈ watermark := by
  have filled : LooseText.ofText Watermark.token ≠ [] :=
    mt List.map_eq_nil_iff.mp Watermark.token_ne_nil
  have whole : none ∉ LooseText.ofText text := by simp [LooseText.ofText]
  have occurs_iff : LooseText.ofText Watermark.token <:+: LooseText.ofText text ↔
      Watermark.token <:+: text := by
    constructor
    · intro occurs
      obtain ⟨within, isInfix, within_eq⟩ := List.infix_map_iff.mp occurs
      rwa [List.map_injective_iff.mpr (Option.some_injective Char) within_eq]
    · exact fun occurs => occurs.map some
  rw [LooseText.toText?_eq_none_iff, ← occurs_iff]
  constructor
  · intro lone
    constructor
    · by_contra free
      rw [Text.replaceAll_of_occurrences_eq_zero ((Text.occurrences_eq_zero_iff filled).mpr free)]
        at lone
      exact whole lone
    · exact (Text.mem_replaceAll filled lone).resolve_left whole
  · rintro ⟨occurs, lone⟩
    exact Text.mem_replaceAll_of_occurs filled occurs lone

theorem stampContent_eq_error_iff {watermark : LooseText} {content : Bytes}
    {failure : UploadFailure} :
    stampContent watermark content = .error failure ↔
      failure = .notText ∧ (Utf8.decode? content = none ∨
        ∃ text, Utf8.decode? content = some text ∧ Watermark.token <:+: text ∧
          none ∈ watermark) := by
  rw [stampContent]
  cases Utf8.decode? content with
  | none => simp [eq_comm]
  | some text =>
      have broken_iff := toText?_replaceAll_eq_none_iff watermark text
      simp only [reduceCtorEq, Option.some.injEq, exists_eq_left', false_or, ← broken_iff]
      split
      · next broken => simp [broken, eq_comm]
      · next written => simp [written]

section

variable {package : Package} {watermark : LooseText} {part : String} {failure : UploadFailure}

theorem stampEntry_eq_error_iff {entry : Entry} {content : Bytes} :
    stampEntry watermark part entry content = .error failure ↔
      entry.name = part ∧ stampContent watermark content = .error failure := by
  rw [stampEntry]
  split
  · next isPart => simp [beq_iff_eq.mp isPart]
  · next other => simp [mt beq_iff_eq.mpr other]

theorem copy_eq_error_iff {entry : Entry} :
    toolkit.copy package watermark part entry = .error failure ↔
      toolkit.CopyFails package watermark part entry failure := by
  simp only [copy, bind_eq_error, mapError_eq_error_iff, mapError_eq_ok_iff,
    stampEntry_eq_error_iff, stampContent_eq_error_iff]
  constructor
  · rintro (⟨fault, fails, rfl⟩ | ⟨content, read, ⟨isPart, rfl, noText⟩ |
      ⟨stamped, stamped_eq, ⟨fault, fails, rfl⟩ | ⟨_, _, impossible⟩⟩⟩)
    · exact .unread fails
    · rcases noText with undecoded | ⟨text, decoded, occurs, lone⟩
      · exact .notText isPart read undecoded
      · exact .loneHalf isPart read decoded occurs lone
    · exact .unwritten read stamped_eq fails
    · cases impossible
  · intro fails
    cases fails with
    | unread fails => exact .inl ⟨_, fails, rfl⟩
    | notText isPart read undecoded =>
        exact .inr ⟨_, read, .inl ⟨isPart, rfl, .inl undecoded⟩⟩
    | loneHalf isPart read decoded occurs lone =>
        exact .inr ⟨_, read, .inl ⟨isPart, rfl, .inr ⟨_, decoded, occurs, lone⟩⟩⟩
    | unwritten read stamped_eq fails =>
        exact .inr ⟨_, read, .inr ⟨_, stamped_eq, .inl ⟨_, fails, rfl⟩⟩⟩

theorem stamp_eq_error_iff :
    toolkit.stamp package watermark part = .error failure ↔
      toolkit.StampFails package watermark part failure := by
  simp only [stamp, bind_eq_error, mapError_eq_error_iff, mapError_eq_ok_iff]
  constructor
  · rintro (⟨fault, fails, rfl⟩ | ⟨entries, listed, fails⟩)
    · exact .unlisted fails
    · split at fails
      · next holds =>
          rcases bind_eq_error.mp fails with fails | ⟨copies, copied, fails⟩
          · simp only [mapM_eq_error_iff, copy_eq_error_iff] at fails
            exact .uncopied listed (List.contains_iff_mem.mp holds) fails
          · obtain ⟨fault, refuses, rfl⟩ := mapError_eq_error_iff.mp fails
            exact .unclosed listed (List.contains_iff_mem.mp holds) copied refuses
      · cases fails
  · intro fails
    cases fails with
    | unlisted fails => exact .inl ⟨_, fails, rfl⟩
    | uncopied listed holds first =>
        refine .inr ⟨_, listed, ?_⟩
        rw [if_pos (List.contains_iff_mem.mpr holds)]
        refine bind_eq_error.mpr (.inl ?_)
        simpa only [mapM_eq_error_iff, copy_eq_error_iff] using first
    | unclosed listed holds copied fails =>
        refine .inr ⟨_, listed, ?_⟩
        rw [if_pos (List.contains_iff_mem.mpr holds)]
        exact bind_eq_error.mpr (.inr ⟨_, copied, mapError_eq_error_iff.mpr ⟨_, fails, rfl⟩⟩)

/-- A watermark that cannot be written does not tell of the template. -/
theorem not_isDocumented_of_stampFails
    (fails : toolkit.StampFails package watermark part failure) : failure.isDocumented = false := by
  cases fails with
  | unlisted fails => rfl
  | uncopied listed holds first =>
      obtain ⟨_, entry, _, _, _, fails⟩ := first
      cases fails <;> rfl
  | unclosed listed holds copied fails => rfl

end

theorem check_eq_error_iff {stamped : Package} {failure : UploadFailure} :
    toolkit.check stamped = .error failure ↔
      ∃ fault, toolkit.opens stamped = .error fault ∧ fault.report? = none ∧
        failure = .tool fault := by
  rw [check]
  cases toolkit.opens stamped with
  | ok _ => simp
  | error fault =>
      cases fault with
      | malformed => simp [ToolFault.report?, eq_comm]
      | unexpected => simp [ToolFault.report?, eq_comm]
      | damaged | fileMissing | badValue | refused => simp [ToolFault.report?]

section

variable {settings : Settings} {package : Package} {watermark : LooseText}

theorem prepared_of_given (given : watermark ≠ []) :
    toolkit.prepared settings package watermark =
      match toolkit.stamp package watermark settings.watermarkPart with
      | .error (.tool (.damaged report)) =>
        .ok (package, some ("Invalid document format: " ++ report))
      | .error failure => .error failure
      | .ok stamped => do return (stamped, ← toolkit.check stamped) := by
  rw [prepared, List.isEmpty_eq_false_iff.mpr given]
  rfl

/-- A template cannot be prepared only when its stamping breaks the upload. -/
theorem stampBreaks_of_prepared {failure : UploadFailure}
    (fails : toolkit.prepared settings package watermark = .error failure) :
    watermark ≠ [] ∧ toolkit.StampBreaks settings package watermark ∧
      failure.isDocumented = false := by
  by_cases blank : watermark = []
  · rw [blank] at fails
    cases fails
  · refine ⟨blank, ?_⟩
    rw [prepared_of_given blank] at fails
    split at fails
    · cases fails
    · next refused undamaged stamp_eq =>
        cases fails
        have stampFails := stamp_eq_error_iff.mp stamp_eq
        refine ⟨.unwritten stampFails ?_, not_isDocumented_of_stampFails stampFails⟩
        rintro report rfl
        exact undamaged report rfl
    · next stamped stamp_eq =>
        rcases bind_eq_error.mp fails with fails | ⟨_, _, impossible⟩
        · obtain ⟨fault, refuses, unreported, rfl⟩ := check_eq_error_iff.mp fails
          exact ⟨.unopened stamp_eq refuses unreported, rfl⟩
        · cases impossible

/-- Stamping that breaks the upload does not tell of the template. -/
theorem prepared_of_stampBreaks (given : watermark ≠ [])
    (breaks : toolkit.StampBreaks settings package watermark) :
    ∃ failure, toolkit.prepared settings package watermark = .error failure ∧
      failure.isDocumented = false := by
  rw [prepared_of_given given]
  cases breaks with
  | @unwritten failure fails undamaged =>
      rw [stamp_eq_error_iff.mpr fails]
      refine ⟨failure, ?_, not_isDocumented_of_stampFails fails⟩
      split
      · next report refused =>
          cases refused
          exact absurd rfl (undamaged report)
      · next refused =>
          cases refused
          rfl
      · next written => cases written
  | @unopened stamped fault stamp_eq fails unreported =>
      rw [stamp_eq]
      refine ⟨.tool fault, bind_eq_error.mpr (.inl ?_), rfl⟩
      exact check_eq_error_iff.mpr ⟨fault, fails, unreported, rfl⟩

/-- A template that could be prepared is the one that is kept. -/
theorem keeps_of_prepared {document : Package} {report : Option String}
    (prepared_eq : toolkit.prepared settings package watermark = .ok (document, report)) :
    toolkit.Keeps settings package watermark document := by
  by_cases blank : watermark = []
  · rw [blank] at prepared_eq
    cases prepared_eq
    exact .plain blank
  · rw [prepared_of_given blank] at prepared_eq
    split at prepared_eq
    · next damage stamp_eq =>
        cases prepared_eq
        exact .damaged blank (stamp_eq_error_iff.mp stamp_eq)
    · cases prepared_eq
    · next stamped stamp_eq =>
        obtain ⟨checked, _, same⟩ := bind_eq_ok.mp prepared_eq
        cases same
        exact .stamped blank stamp_eq

/-- The template that is kept is the one that is prepared, if any is. -/
theorem eq_of_keeps {kept document : Package} {report : Option String}
    (keeps : toolkit.Keeps settings package watermark kept)
    (prepared_eq : toolkit.prepared settings package watermark = .ok (document, report)) :
    kept = document := by
  cases keeps with
  | plain blank =>
      rw [blank] at prepared_eq
      cases prepared_eq
      rfl
  | damaged given fails =>
      rw [prepared_of_given given, stamp_eq_error_iff.mpr fails] at prepared_eq
      cases prepared_eq
      rfl
  | stamped given stamp_eq =>
      rw [prepared_of_given given, stamp_eq] at prepared_eq
      obtain ⟨checked, _, same⟩ := bind_eq_ok.mp prepared_eq
      cases same
      rfl

end

/-! ### Extracting -/

section

variable {document : Package} {failure : UploadFailure}

theorem readPart_eq_error_iff {name : String} :
    toolkit.readPart document name = .error failure ↔
      ∃ fault, toolkit.content document name = .error fault ∧ fault.whileReading = failure := by
  simp only [readPart, bind_eq_error, mapError_eq_error_iff]
  constructor
  · rintro (fails | ⟨_, _, impossible⟩)
    · exact fails
    · cases impossible
  · exact .inl

theorem parts_eq_error_iff :
    toolkit.parts document = .error failure ↔
      (∃ fault, toolkit.entries document = .error fault ∧ fault.whileReading = failure) ∨
        ∃ entries, toolkit.entries document = .ok entries ∧
          match Part.tooLongAmong? (entries.map (·.name)) with
          | some digits => failure = .numberTooLong digits
          | none => ∃ fault, FirstFails
              (fun name fault => toolkit.content document name = .error fault)
              (Part.readingOrder (entries.map (·.name))) fault ∧ fault.whileReading = failure := by
  simp only [parts, bind_eq_error, mapError_eq_error_iff, mapError_eq_ok_iff]
  refine or_congr_right (exists_congr fun entries => and_congr_right fun _ => ?_)
  cases Part.tooLongAmong? (entries.map (·.name)) with
  | some digits => simp [eq_comm]
  | none => simp only [mapM_eq_error_iff, readPart_eq_error_iff, firstFails_map_iff]

theorem parts_of_longNumber {entries : List Entry} (listed : toolkit.entries document = .ok entries)
    {digits : Nat} (tooLong : Part.tooLongAmong? (entries.map (·.name)) = some digits) :
    toolkit.parts document = .error (.numberTooLong digits) := by
  refine parts_eq_error_iff.mpr (.inr ⟨entries, listed, ?_⟩)
  rw [tooLong]

theorem scanPart_eq_error_iff {part : String × Bytes} :
    toolkit.scanPart part = .error failure ↔
      ∃ fault, toolkit.parse part.2 = .error fault ∧ fault ≠ .malformed ∧
        (∀ report, fault ≠ .badValue report) ∧ failure = .tool fault := by
  rw [scanPart, tokensIn]
  cases toolkit.parse part.2 with
  | ok root => simp [bind_eq_error, pure, Except.pure]
  | error fault =>
      cases fault with
      | malformed | badValue => simp [bind_eq_error, pure, Except.pure]
      | damaged | fileMissing | refused | unexpected => simp [eq_comm]

theorem isDocumented_mapError_template {α : Type} (outcome : Except TemplateError α) :
    isDocumented (outcome.mapError .template) = true := by
  cases outcome <;> rfl

/-- What breaks the extraction makes it fail in another way than documented. -/
theorem isDocumented_extract_of_breaks (breaks : toolkit.ExtractionBreaks document) :
    isDocumented (toolkit.extract document) = false := by
  have of_parts : ∀ failure, toolkit.parts document = .error failure →
      failure.isDocumented = false → isDocumented (toolkit.extract document) = false := by
    intro failure fails undocumented
    rw [extract, fails]
    exact undocumented
  cases breaks with
  | unlisted fails untold => exact of_parts _ (parts_eq_error_iff.mpr (.inl ⟨_, fails, rfl⟩)) untold
  | @longNumber entries listed long =>
      obtain ⟨digits, tooLong⟩ := Option.ne_none_iff_exists'.mp (Part.hasLongNumber_iff.mp long)
      exact of_parts _ (parts_of_longNumber listed tooLong) rfl
  | @unread entries fault listed first untold =>
      cases tooLong : Part.tooLongAmong? (entries.map (·.name)) with
      | some digits => exact of_parts _ (parts_of_longNumber listed tooLong) rfl
      | none =>
          refine of_parts _ (parts_eq_error_iff.mpr (.inr ⟨_, listed, ?_⟩)) untold
          rw [tooLong]
          exact ⟨fault, first, rfl⟩
  | @unparsed parts part fault read partMem fails markup value =>
      have scan_eq := scanPart_eq_error_iff.mpr ⟨fault, fails, markup, value, rfl⟩
      have somewhere : ∃ part ∈ parts, ∃ failure, toolkit.scanPart part = .error failure :=
        ⟨part, partMem, _, scan_eq⟩
      obtain ⟨failure, first⟩ := exists_firstFails_iff.mpr somewhere
      -- another part may fail before this one does, but not in a documented way either
      have scans : parts.mapM toolkit.scanPart = .error failure := mapM_eq_error_iff.mpr first
      obtain ⟨_, failing, _, _, _, fails⟩ := first
      obtain ⟨_, _, _, _, rfl⟩ := scanPart_eq_error_iff.mp fails
      rw [extract, read]
      simp only [bind, Except.bind, scans]
      rfl

/-- An extraction that fails in another way than documented was broken. -/
theorem breaks_of_extract (undocumented : isDocumented (toolkit.extract document) = false) :
    toolkit.ExtractionBreaks document := by
  cases extracted : toolkit.extract document with
  | ok extraction =>
      rw [extracted] at undocumented
      cases undocumented
  | error failure =>
      rw [extracted] at undocumented
      rcases bind_eq_error.mp extracted with fails | ⟨parts, read, fails⟩
      · rcases parts_eq_error_iff.mp fails with ⟨fault, unlisted, rfl⟩ | ⟨entries, listed, fails⟩
        · exact .unlisted unlisted undocumented
        · cases tooLong : Part.tooLongAmong? (entries.map (·.name)) with
          | some digits =>
              refine .longNumber listed (Part.hasLongNumber_iff.mpr ?_)
              simp [tooLong]
          | none =>
              rw [tooLong] at fails
              obtain ⟨fault, first, rfl⟩ := fails
              exact .unread listed first undocumented
      · rcases bind_eq_error.mp fails with fails | ⟨scanned, _, fails⟩
        · obtain ⟨before, part, after, rfl, _, fails⟩ := mapM_eq_error_iff.mp fails
          obtain ⟨fault, fails, markup, value, _⟩ := scanPart_eq_error_iff.mp fails
          exact .unparsed read (by simp) fails markup value
        · have documented := isDocumented_mapError_template (Extraction.ofRead scanned)
          rw [fails, isDocumented_error] at documented
          rw [isDocumented_error, documented] at undocumented
          cases undocumented

theorem isDocumented_extract_iff :
    isDocumented (toolkit.extract document) = true ↔ ¬toolkit.ExtractionBreaks document := by
  rw [← Bool.not_eq_false, not_iff_not]
  exact ⟨breaks_of_extract, isDocumented_extract_of_breaks⟩

end

/-! ### Uploads -/

/-- A template that was read is resolved, or cannot be used, unless it breaks the upload. -/
theorem isDocumented_resolve_iff (session : Session) (package : Package) (upload : Upload)
    (watermark : LooseText) :
    isDocumented (toolkit.resolve session package upload watermark) = true ↔
      ¬toolkit.Breaks session.settings package watermark := by
  rw [resolve]
  rcases prepared_eq : toolkit.prepared session.settings package watermark with
    failure | ⟨document, report⟩
  · obtain ⟨given, breaks, undocumented⟩ := stampBreaks_of_prepared prepared_eq
    have broken : toolkit.Breaks session.settings package watermark := .stamping given breaks
    simp [bind, Except.bind, undocumented, broken]
  · have breaks_iff : toolkit.Breaks session.settings package watermark ↔
        toolkit.ExtractionBreaks document := by
      constructor
      · intro breaks
        cases breaks with
        | stamping given breaks =>
            obtain ⟨failure, fails, _⟩ := prepared_of_stampBreaks given breaks
            rw [prepared_eq] at fails
            cases fails
        | extracting keeps breaks => rwa [← eq_of_keeps keeps prepared_eq]
      · exact .extracting (keeps_of_prepared prepared_eq)
    -- what comes after the extraction cannot fail
    rw [breaks_iff, ← isDocumented_extract_iff]
    simp only [bind, Except.bind]
    cases toolkit.extract document with
    | error failure => rfl
    | ok extraction => rfl

theorem process_of_open {session : Session} {upload : Upload} (watermark : LooseText)
    (opened : upload.closesMeanwhile = false) (alive : session.isAlive = true) :
    toolkit.process session upload watermark =
      match upload.read with
      | .error reason => .error (.template (.unreadable reason))
      | .ok package =>
        (toolkit.resolve session package upload watermark).map fun (next, result) =>
          (next, some result) := by
  cases read_eq : upload.read with
  | error reason => simp [process, opened, alive, read_eq]
  | ok package => simp [process, opened, alive, read_eq]

theorem isDocumented_process_of_closed {session : Session} {upload : Upload}
    (watermark : LooseText) (closed : session.IsClosedFor upload) :
    isDocumented (toolkit.process session upload watermark) = true := by
  have dead : (if upload.closesMeanwhile then session.close else session).isAlive = false := by
    split
    · rfl
    · next stays => exact closed.resolve_right stays
  rw [process]
  simp [dead]

/-- An upload comes to an answer, or fails in the documented way, exactly when the session is
closed for it or nothing that was read breaks it.  So it is with any tools and any watermark,
and `Session.process` is such an upload. -/
theorem isDocumented_process_iff (session : Session) (upload : Upload) :
    (∀ (toolkit : Toolkit) (watermark : LooseText),
      isDocumented (toolkit.process session upload watermark) = true ↔
        session.IsClosedFor upload ∨
          ∀ package, upload.read = .ok package →
            ¬toolkit.Breaks session.settings package watermark) ∧
      (session.process upload).mapError UploadError.failure =
        standard.process session upload (.ofText upload.watermark.toList) := by
  refine ⟨fun toolkit watermark => ?_, (standard_process session upload).symm⟩
  by_cases closed : session.IsClosedFor upload
  · simp [closed, isDocumented_process_of_closed watermark closed]
  · obtain ⟨alive, closes⟩ := Session.not_isClosedFor_iff.mp closed
    rw [process_of_open watermark closes alive]
    cases upload.read with
    | error reason => simp [UploadFailure.isDocumented]
    | ok package =>
        simp only [closed, false_or, Except.ok.injEq, forall_eq']
        rw [← isDocumented_resolve_iff session package upload watermark]
        cases toolkit.resolve session package upload watermark with
        | error failure => rfl
        | ok resolved => rfl

end Toolkit

namespace Session

/-- A package with a readable body, and a header that is no text. -/
def samplePackage : Package :=
  .archive { entries := [
    ("word/document.xml", Utf8.encodeString "<body/>"), ("word/header2.xml", [0xFF])] }

/-- An upload that reports the header in its result fails for the header when a watermark is
given, and not in the documented way. -/
theorem unreadable_header_breaks_watermark :
    (process {} { read := .ok samplePackage }).map (fun answer => answer.2.map (·.extraction)) =
        .ok (some { failedParts := ["word/header2.xml"] }) ∧
      process {} { read := .ok samplePackage, watermark := "Draft" } = .error .notText ∧
        UploadError.notText.failure.isDocumented = false := by
  decide +kernel

end Session

end Stencil
