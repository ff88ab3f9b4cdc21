import Stencil.Package.Extraction
import Stencil.Proofs.Package.Part

/-!
# Extraction from what is read

`report` goes through the parts that were read: a well-formed part gives its tokens, any
other one its name.  With a well-formed part the report is what is extracted, and else the
template cannot be used.  The reading of an archive tells the rest: extraction does not
depend on the order of entries with distinct names and numbers, and a part that is added
and is not well-formed is reported without touching the tokens.
-/

namespace Stencil

namespace Extraction

/-- A content that is well-formed markup. -/
def IsWellFormed (content : Bytes) : Prop :=
  ∃ root, Xml.Node.parse? .resolve content = some root

/-- What is reported of parts: the tokens of those that are well-formed, and the names of the
others. -/
def report : List (String × Bytes) → Extraction
  | [] => {}
  | (name, content) :: rest =>
    match Xml.Node.parse? .resolve content with
    | some root => { report rest with tokens := tokensOf root ++ (report rest).tokens }
    | none => { report rest with failedParts := name :: (report rest).failedParts }

theorem tokensIn?_eq_none_iff {content : Bytes} :
    tokensIn? content = none ↔ ¬IsWellFormed content := by
  rw [tokensIn?, Option.map_eq_none_iff, Option.eq_none_iff_forall_ne_some, IsWellFormed,
    not_exists]

section Report

variable {name : String} {parts : List (String × Bytes)}

/-- The report of parts by two passes, one for the tokens and one for the names. -/
theorem report_eq (parts : List (String × Bytes)) :
    report parts =
      { tokens := (parts.filterMap fun part => tokensIn? part.2).flatten
        failedParts := (parts.filter fun part => (tokensIn? part.2).isNone).map (·.1) } := by
  induction parts with
  | nil => rfl
  | cons part rest ih =>
      cases parsed : Xml.Node.parse? .resolve part.2 with
      | some root => simp [report, tokensIn?, parsed, ih]
      | none => simp [report, tokensIn?, parsed, ih]

theorem mem_failedParts_report : name ∈ (report parts).failedParts ↔
    ∃ content, (name, content) ∈ parts ∧ ¬IsWellFormed content := by
  simp only [report_eq, List.mem_map, List.mem_filter, Option.isNone_iff_eq_none,
    tokensIn?_eq_none_iff]
  constructor
  · rintro ⟨⟨_, content⟩, ⟨partMem, malformed⟩, rfl⟩
    exact ⟨content, partMem, malformed⟩
  · rintro ⟨content, partMem, malformed⟩
    exact ⟨(name, content), ⟨partMem, malformed⟩, rfl⟩

theorem nodup_failedParts_report (nodup : (parts.map (·.1)).Nodup) :
    (report parts).failedParts.Nodup := by
  rw [report_eq]
  exact nodup.sublist (List.filter_sublist.map _)

/-- Without the parts of a name, none of which is well-formed, the name is not reported and the
tokens are as they were. -/
theorem report_filter (malformed : ∀ part ∈ parts, part.1 = name → ¬IsWellFormed part.2) :
    report (parts.filter (·.1 != name)) =
      { tokens := (report parts).tokens
        failedParts := (report parts).failedParts.filter (· != name) } := by
  have tokens_eq : ((parts.filter (·.1 != name)).filterMap fun part => tokensIn? part.2) =
      parts.filterMap fun part => tokensIn? part.2 := by
    rw [List.filterMap_filter]
    refine List.filterMap_congr fun part partMem => ?_
    by_cases same : part.1 = name
    · rw [tokensIn?_eq_none_iff.mpr (malformed part partMem same), ite_self]
    · rw [if_pos (bne_iff_ne.mpr same)]
  have failedParts_eq : (parts.filter (·.1 != name)).filter (fun part =>
      (tokensIn? part.2).isNone) =
        (parts.filter fun part => (tokensIn? part.2).isNone).filter (·.1 != name) := by
    simp only [List.filter_filter, Bool.and_comm]
  simp only [report_eq, tokens_eq, failedParts_eq, List.filter_map, Function.comp_def]

theorem length_failedParts_report_eq_iff :
    (report parts).failedParts.length = parts.length ↔ ∀ part ∈ parts, ¬IsWellFormed part.2 := by
  rw [report_eq, List.length_map, List.length_filter_eq_length_iff]
  simp only [Option.isNone_iff_eq_none, tokensIn?_eq_none_iff]

theorem ofParts_eq (parts : List (String × Bytes)) :
    ofParts parts =
      if parts.isEmpty then .error .noParts
      else if (report parts).failedParts.length == parts.length then .error .noneReadable
      else .ok (report parts) := by
  simp only [ofParts, ofRead, List.isEmpty_map, List.length_map, report_eq, List.filter_map,
    List.map_map, List.filterMap_map, Function.comp_def]

/-- Parts of which one is well-formed give what is reported of them. -/
theorem ofParts_of_wellFormed (wellFormed : ∃ part ∈ parts, IsWellFormed part.2) :
    ofParts parts = .ok (report parts) := by
  obtain ⟨part, partMem, wellFormed⟩ := wellFormed
  have nonempty : parts.isEmpty = false := by
    rw [List.isEmpty_eq_false_iff]
    exact List.ne_nil_of_mem partMem
  have someRead : ((report parts).failedParts.length == parts.length) = false := by
    rw [beq_eq_false_iff_ne, ne_eq, length_failedParts_report_eq_iff]
    exact fun malformed => malformed part partMem wellFormed
  simp [ofParts_eq, nonempty, someRead]

/-- Parts of which none is well-formed give nothing. -/
theorem ofParts_of_malformed (malformed : ∀ part ∈ parts, ¬IsWellFormed part.2) :
    ∃ error, ofParts parts = .error error := by
  have noneRead := beq_iff_eq.mpr (length_failedParts_report_eq_iff.mpr malformed)
  rw [ofParts_eq, if_pos noneRead]
  split
  · exact ⟨_, rfl⟩
  · exact ⟨_, rfl⟩

end Report

/-! ### Sources -/

section

variable {source : Source} {archive : Archive}

/-- What is extracted from a source whose names are plain. -/
theorem ofSource_of_isPlain (opened : source.archive? = some archive) (plain : archive.IsPlain) :
    ofSource source = (ofParts (Part.ofArchive archive)).mapError .template := by
  simp only [ofSource, Part.ofSource_of_isPlain opened plain, bind, Except.bind]
  cases ofParts (Part.ofArchive archive) with
  | ok extraction => rfl
  | error reason => rfl

theorem ofSource_of_wellFormed (opened : source.archive? = some archive) (plain : archive.IsPlain)
    (wellFormed : ∃ part ∈ Part.ofArchive archive, IsWellFormed part.2) :
    ofSource source = .ok (report (Part.ofArchive archive)) := by
  rw [ofSource_of_isPlain opened plain, ofParts_of_wellFormed wellFormed]
  rfl

theorem ofSource_of_malformed (opened : source.archive? = some archive) (plain : archive.IsPlain)
    (malformed : ∀ part ∈ Part.ofArchive archive, ¬IsWellFormed part.2) :
    ∃ error, ofSource source = .error (.template error) := by
  obtain ⟨error, fails⟩ := ofParts_of_malformed malformed
  refine ⟨error, ?_⟩
  rw [ofSource_of_isPlain opened plain, fails]
  rfl

theorem ofSource_eq_ok_iff (opened : source.archive? = some archive) (plain : archive.IsPlain)
    {extraction : Extraction} :
    ofSource source = .ok extraction ↔
      (∃ part ∈ Part.ofArchive archive, IsWellFormed part.2) ∧
        report (Part.ofArchive archive) = extraction := by
  constructor
  · intro extracted
    have wellFormed : ∃ part ∈ Part.ofArchive archive, IsWellFormed part.2 := by
      by_contra malformed
      push Not at malformed
      obtain ⟨error, fails⟩ := ofSource_of_malformed opened plain malformed
      rw [fails] at extracted
      cases extracted
    rw [ofSource_of_wellFormed opened plain wellFormed] at extracted
    exact ⟨wellFormed, Except.ok.inj extracted⟩
  · rintro ⟨wellFormed, rfl⟩
    exact ofSource_of_wellFormed opened plain wellFormed

/-- A part that is added and is not well-formed is reported, and nothing else changes. -/
theorem ofSource_of_extended {other : Source} {extended : Archive} {name : String}
    {content : Bytes} (opened : source.archive? = some archive) (plain : archive.IsPlain)
    (opened' : other.archive? = some extended) (plain' : extended.IsPlain)
    (isExtended : archive.IsExtended extended name content) (isText : Part.IsText name)
    (malformed : ¬IsWellFormed content) {extraction : Extraction}
    (extracted : ofSource source = .ok extraction) :
    ∃ failedParts, ofSource other = .ok { extraction with failedParts } ∧
      name ∈ failedParts ∧ failedParts.erase name = extraction.failedParts := by
  obtain ⟨⟨part, partMem, wellFormed⟩, rfl⟩ := (ofSource_eq_ok_iff opened plain).mp extracted
  have reading := Part.isReading_ofArchive plain'.singleLine
  have parts_eq : Part.ofArchive archive =
      (Part.ofArchive extended).filter (·.1 != name) :=
    (Part.isReading_ofArchive plain.singleLine).eq (reading.of_isExtended isExtended)
  have held := isExtended.endsWith
  have added : ∀ entry ∈ Part.ofArchive extended, entry.1 = name → ¬IsWellFormed entry.2 := by
    rintro ⟨_, entryContent⟩ entryMem rfl
    rw [((reading.mem_iff _ _).mp entryMem).2.unique held]
    exact malformed
  have reported := report_filter added
  rw [← parts_eq] at reported
  rw [parts_eq] at partMem
  have readable : ∃ part ∈ Part.ofArchive extended, IsWellFormed part.2 :=
    ⟨part, (List.mem_filter.mp partMem).1, wellFormed⟩
  refine ⟨(report (Part.ofArchive extended)).failedParts, ?_, ?_, ?_⟩
  · rw [ofSource_of_wellFormed opened' plain' readable, reported]
  · exact mem_failedParts_report.mpr ⟨content, (reading.mem_iff _ _).mpr ⟨isText, held⟩, malformed⟩
  · rw [reported, (nodup_failedParts_report reading.nodup).erase_eq_filter]

/-- The text parts of an archive are read in their order, and they tell what is extracted. -/
theorem extraction_follows_reading (opened : source.archive? = some archive)
    (plain : archive.IsPlain) :
    ∃ parts, Part.ofSource source = .ok parts ∧ Part.IsReading archive parts ∧
      (∀ extraction, ofSource source = .ok extraction ↔
        (∃ part ∈ parts, IsWellFormed part.2) ∧ report parts = extraction) ∧
      ((∃ error, ofSource source = .error (.template error)) ↔
        ∀ part ∈ parts, ¬IsWellFormed part.2) ∧
      (archive.names.Nodup → Part.NumbersDiffer archive → ∀ permuted shuffled,
        permuted.archive? = some shuffled → shuffled.entries.Perm archive.entries →
          Part.ofSource permuted = .ok parts ∧ ofSource permuted = ofSource source) ∧
      (∀ other extended name content, other.archive? = some extended → extended.IsPlain →
        archive.IsExtended extended name content → Part.IsText name → ¬IsWellFormed content →
          ∀ extraction, ofSource source = .ok extraction →
            ∃ failedParts, ofSource other = .ok { extraction with failedParts } ∧
              name ∈ failedParts ∧ failedParts.erase name = extraction.failedParts) := by
  refine ⟨Part.ofArchive archive, Part.ofSource_of_isPlain opened plain,
    Part.isReading_ofArchive plain.singleLine, ?_, ?_, ?_, ?_⟩
  · exact fun extraction => ofSource_eq_ok_iff opened plain
  · constructor
    · rintro ⟨error, fails⟩ part partMem wellFormed
      rw [ofSource_of_wellFormed opened plain ⟨part, partMem, wellFormed⟩] at fails
      cases fails
    · exact ofSource_of_malformed opened plain
  · intro nodup differ permuted shuffled opened' perm
    have plain' := plain.of_perm perm
    have parts_eq := Part.ofArchive_of_perm plain nodup differ perm
    rw [Part.ofSource_of_isPlain opened' plain', ofSource_of_isPlain opened' plain',
      ofSource_of_isPlain opened plain, parts_eq]
    exact ⟨rfl, rfl⟩
  · intro other extended name content opened' plain' isExtended isText malformed extraction
    exact ofSource_of_extended opened plain opened' plain' isExtended isText malformed

/-- An archive that lists a body behind two headers, which are empty and in the wrong order. -/
def sampleListing : Archive where
  entries := [("word/header10.xml", []), ("word/header2.xml", []),
    ("word/document.xml", Utf8.encodeString
      ("<w:t xmlns:w=\"http://schemas.openxmlformats.org/wordprocessingml/2006/main\">" ++
        "\x7bName\x7d</w:t>"))]

theorem extraction_follows_sampleListing :
    (∃ parts, Part.ofSource (.memory (.archive sampleListing)) = .ok parts ∧
      Part.IsReading sampleListing parts) ∧
    ofSource (.memory (.archive { entries := sampleListing.entries.reverse })) =
      .ok { tokens := ["Name"], failedParts := ["word/header2.xml", "word/header10.xml"] } ∧
    ∃ failedParts, ofSource (.memory (.archive
        { entries := ("word/footer01.xml", []) :: sampleListing.entries })) =
          .ok { tokens := ["Name"], failedParts } ∧
      "word/footer01.xml" ∈ failedParts ∧
      failedParts.erase "word/footer01.xml" = ["word/header2.xml", "word/header10.xml"] := by
  have extracted : ofSource (.memory (.archive sampleListing)) =
      .ok { tokens := ["Name"], failedParts := ["word/header2.xml", "word/header10.xml"] } := by
    decide +kernel
  have plain : sampleListing.IsPlain := by decide +kernel
  have differ : Part.NumbersDiffer sampleListing :=
    Part.numbersDiffer_of_number? plain.singleLine (by decide +kernel)
  have malformed : ¬IsWellFormed [] := tokensIn?_eq_none_iff.mp (by decide +kernel)
  have isText : Part.IsText "word/footer01.xml" :=
    ⟨2, 1, @Part.Ranked.footer ['0', '1'] (List.all_eq_true.mp (by decide))⟩
  have isExtended : sampleListing.IsExtended
      { entries := ("word/footer01.xml", []) :: sampleListing.entries } "word/footer01.xml" [] :=
    ⟨by decide +kernel, [], sampleListing.entries, rfl, rfl⟩
  have opened : (Source.memory (.archive sampleListing)).archive? = some sampleListing := rfl
  obtain ⟨parts, read, isReading, _, _, permuting, extending⟩ :=
    extraction_follows_reading opened plain
  refine ⟨⟨parts, read, isReading⟩, ?_, ?_⟩
  · rw [← extracted]
    exact (permuting (by decide +kernel) differ _ _ rfl (List.reverse_perm _)).2
  · exact extending _ _ _ _ rfl (by decide +kernel) isExtended isText malformed _ extracted

end

end Extraction

end Stencil
