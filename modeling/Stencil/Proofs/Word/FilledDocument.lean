import Stencil.Proofs.Word.Filling

/-!
# Filling a whole document

The paragraphs of a document are filled one by one, each as often as it is visited, so what
holds of a paragraph holds of the document: its texts are those of the template with
every token of a key replaced at once.  A paragraph that is not visited, because a
cell around it spans no column, stays as it is.
-/

namespace Stencil.Word

open Token

/-- A paragraph of a template: whether it is visited, and its pieces. -/
abbrev Part := Bool × List Segment

/-- The text of a part. -/
def partText (part : Part) : Bool × List Char :=
  (part.1, Segment.textOf part.2)

/-- A part with texts in the place of its tokens, if it is visited. -/
def filledPart (values : Values) (part : Part) : Part :=
  (part.1, if part.1 then filledPieces values part.2 else part.2)

/-- Tells whether a part that is visited has a token with a name. -/
def isNamedInPart (key : String) (part : Part) : Bool :=
  part.1 && isNamedIn part.2 key.toList

/-- The text of a paragraph, and whether the paragraph is visited. -/
def paragraphText (paragraph : Nat × List Inline) : Bool × List Char :=
  (decide (0 < paragraph.1), (textOf paragraph.2).toList)

/-- A paragraph is a part of a template, however it is cut into runs. -/
structure IsPart (paragraph : Nat × List Inline) (part : Part) : Prop where
  visited_eq : part.1 = decide (0 < paragraph.1)
  written : IsWritten part.2 paragraph.2

variable {values : Values} {paragraph : Nat × List Inline} {part : Part}

theorem IsPart.paragraphText_changed (isPart : IsPart paragraph part) (fits : Fits values) :
    paragraphText (changed (fillTimes values) paragraph) = partText (filledPart values part) := by
  have written := isPart.written.fillTimes fits paragraph.1
  have pieces_eq : piecesAfter values paragraph.1 part.2 = (filledPart values part).2 := by
    rw [piecesAfter, filledPart, isPart.visited_eq]
    by_cases unvisited : paragraph.1 = 0
    · simp [unvisited]
    · simp [unvisited, Nat.pos_of_ne_zero unvisited]
  rw [pieces_eq] at written
  exact Prod.ext isPart.visited_eq.symm written.text_eq

theorem IsPart.mem_keysFoundTimes_iff (isPart : IsPart paragraph part) (fits : Fits values)
    {key : String} (keyMem : key ∈ values.map (·.1)) :
    key ∈ keysFoundTimes values paragraph.1 paragraph.2 ↔ isNamedInPart key part = true := by
  rw [isPart.written.keysFoundTimes_eq fits, isNamedInPart, isPart.visited_eq]
  by_cases unvisited : paragraph.1 = 0
  · simp [unvisited]
  · rw [if_neg unvisited, List.mem_filter]
    simp [keyMem, Nat.pos_of_ne_zero unvisited]

variable {paragraphs : List (Nat × List Inline)} {template : List Part}

theorem exists_isPart (areParts : List.Forall₂ IsPart paragraphs template)
    (paragraphMem : paragraph ∈ paragraphs) : ∃ part, IsPart paragraph part := by
  induction areParts with
  | nil => cases paragraphMem
  | @cons first part rest parts isPart _ ih =>
      rcases List.mem_cons.mp paragraphMem with rfl | later
      · exact ⟨part, isPart⟩
      · exact ih later

theorem all_acceptsTimes (areParts : List.Forall₂ IsPart paragraphs template)
    (fits : Fits values) :
    (paragraphs.all fun (visits, inlines) => acceptsTimes values visits inlines) = true := by
  induction areParts with
  | nil => rfl
  | @cons paragraph part rest parts isPart _ ih =>
      rw [List.all_cons, ih, Bool.and_true]
      exact isPart.written.acceptsTimes fits paragraph.1

theorem map_paragraphText_changed (areParts : List.Forall₂ IsPart paragraphs template)
    (fits : Fits values) :
    (paragraphs.map (changed (fillTimes values))).map paragraphText =
      (template.map (filledPart values)).map partText := by
  induction areParts with
  | nil => rfl
  | cons isPart _ ih =>
      simp only [List.map_cons, isPart.paragraphText_changed fits, ih]

theorem mem_flatMap_keysFoundTimes_iff (areParts : List.Forall₂ IsPart paragraphs template)
    (fits : Fits values) {key : String} (keyMem : key ∈ values.map (·.1)) :
    (key ∈ paragraphs.flatMap fun (visits, inlines) => keysFoundTimes values visits inlines) ↔
      template.any (isNamedInPart key) = true := by
  induction areParts with
  | nil => simp
  | cons isPart _ ih =>
      rw [List.flatMap_cons, List.mem_append, ih, List.any_cons, Bool.or_eq_true]
      exact or_congr_left (isPart.mem_keysFoundTimes_iff fits keyMem)

namespace Document

/-- The texts of the paragraphs of a document, each with whether it is visited. -/
def texts (document : Document) : List (Bool × List Char) :=
  document.paragraphs.map paragraphText

/-- A document without links. -/
def IsLinkless (document : Document) : Prop :=
  ∀ paragraph ∈ document.paragraphs, ∀ inline ∈ paragraph.2, inline.isRun = true

/-- A document without links, the texts of which are those of a well-formed template. -/
structure Follows (template : List Part) (document : Document) : Prop where
  linkless : document.IsLinkless
  texts_eq : document.texts = template.map partText
  proper : ∀ part ∈ template, ∀ segment ∈ part.2, segment.IsProper
  writable : ∀ text ∈ document.texts, ∀ c ∈ text.2, isWritable c = true

theorem Follows.areParts {document : Document}
    (follows : document.Follows template) :
    List.Forall₂ IsPart document.paragraphs template := by
  rcases follows with ⟨linkless, texts_eq, proper, writable⟩
  unfold IsLinkless at linkless
  unfold texts at texts_eq writable
  generalize document.paragraphs = paragraphs at linkless texts_eq writable
  induction paragraphs generalizing template with
  | nil =>
      obtain rfl := List.map_eq_nil_iff.mp texts_eq.symm
      exact .nil
  | cons paragraph rest ih =>
      rcases List.map_eq_cons_iff.mp texts_eq.symm with ⟨part, parts, rfl, part_eq, rest_eq⟩
      rcases List.forall_mem_cons.mp linkless with ⟨linkless, restLinkless⟩
      rcases List.forall_mem_cons.mp proper with ⟨proper, restProper⟩
      rw [List.map_cons] at writable
      rcases List.forall_mem_cons.mp writable with ⟨writable, restWritable⟩
      rcases Prod.ext_iff.mp part_eq with ⟨visited_eq, text_eq⟩
      have written : IsWritten part.2 paragraph.2 :=
        ⟨linkless, text_eq.symm, proper, fun c cMem => writable c (text_eq ▸ cMem)⟩
      exact .cons ⟨visited_eq, written⟩ (ih restProper restLinkless rest_eq.symm restWritable)

/-- Another document with the same texts follows the same template. -/
theorem Follows.of_texts_eq {document other : Document}
    (follows : document.Follows template) (linkless : other.IsLinkless)
    (same : other.texts = document.texts) : other.Follows template where
  linkless := linkless
  texts_eq := same.trans follows.texts_eq
  proper := follows.proper
  writable := same ▸ follows.writable

variable {document : Document}

/-- Where every cell spans a column, every part is visited. -/
theorem Follows.visited (follows : document.Follows template) (spans : document.SpansColumns) :
    ∀ part ∈ template, part.1 = true := by
  have allVisited := visited_of_spansColumns spans
  have areParts := follows.areParts
  generalize document.paragraphs = paragraphs at areParts allVisited
  clear follows
  induction areParts with
  | nil => exact fun _ partMem => absurd partMem List.not_mem_nil
  | cons isPart _ ih =>
      rcases List.forall_mem_cons.mp allVisited with ⟨here, later⟩
      refine List.forall_mem_cons.mpr ⟨?_, ih later⟩
      rw [isPart.visited_eq]
      exact decide_eq_true here

/-- The keys that no token asks for. -/
def unasked (values : Values) (template : List Part) : List String :=
  (values.map (·.1)).filter fun key => !template.any (isNamedInPart key)

/-- What filling a document comes to. -/
theorem Follows.fill?_eq (follows : document.Follows template) (fits : Fits values) :
    document.fill? values = some
      { document := document.mapParagraphs (fillTimes values)
        unmatched := unasked values template } := by
  have accepted : document.accepts values = true := all_acceptsTimes follows.areParts fits
  have unmatched_eq : ((values.map (·.1)).filter fun key =>
      !(document.keysFound values).contains key) = unasked values template := by
    apply List.filter_congr
    intro key keyMem
    congr 1
    rw [Bool.eq_iff_iff, List.contains_iff_mem]
    exact mem_flatMap_keysFoundTimes_iff follows.areParts fits keyMem
  simp only [fill?, accepted, if_true, unmatched_eq]

/-- The texts of a document that has been filled are those of the filled template. -/
theorem Follows.texts_mapParagraphs (follows : document.Follows template) (fits : Fits values) :
    (document.mapParagraphs (fillTimes values)).texts =
      (template.map (filledPart values)).map partText := by
  rw [texts, paragraphs_mapParagraphs]
  exact map_paragraphText_changed follows.areParts fits

/-- Filling a document does not depend on the order of the values. -/
theorem Follows.mapParagraphs_eq_of_perm (follows : document.Follows template)
    (fits : Fits values) {values' : Values} (perm : values'.Perm values) :
    document.mapParagraphs (fillTimes values') = document.mapParagraphs (fillTimes values) := by
  apply mapParagraphs_congr
  intro paragraph paragraphMem
  obtain ⟨part, isPart⟩ := exists_isPart follows.areParts paragraphMem
  exact isPart.written.fillTimes_eq_of_perm fits perm paragraph.1

/-- Filling a document that follows a well-formed template is simultaneous substitution: every
token of a key gives way to the text for the key and nothing else changes, and the keys
that no token asks for are told in their order.  This goes for all paragraphs that are
visited, which are all there are when every cell spans a column.  Neither the order
of the values nor the cutting into runs nor the number of visits matters, nor in which way
the document is read from a template. -/
theorem filling_is_substitution (follows : document.Follows template) (fits : Fits values) :
    ∃ filled, document.fill? values = some filled ∧
      filled.document.texts = (template.map (filledPart values)).map partText ∧
      filled.unmatched = unasked values template ∧
      (document.SpansColumns → ∀ part ∈ template, part.1 = true) ∧
      (∀ values', values'.Perm values → ∃ filled', document.fill? values' = some filled' ∧
        filled'.document = filled.document ∧ filled'.unmatched.Perm filled.unmatched) ∧
      (∀ other : Document, other.IsLinkless → other.texts = document.texts →
        ∃ filled', other.fill? values = some filled' ∧
          filled'.document.texts = filled.document.texts ∧
          filled'.unmatched = filled.unmatched) ∧
      ∀ reader source, reader source = .ok document →
        Template.fillThrough reader source values = .ok filled := by
  have fill_eq := follows.fill?_eq fits
  refine ⟨_, fill_eq, follows.texts_mapParagraphs fits, rfl, follows.visited, ?_, ?_, ?_⟩
  · intro values' perm
    refine ⟨_, follows.fill?_eq (fits.perm perm), follows.mapParagraphs_eq_of_perm fits perm, ?_⟩
    exact (perm.map _).filter _
  · intro other linkless same
    have otherFollows := follows.of_texts_eq linkless same
    refine ⟨_, otherFollows.fill?_eq fits, ?_, rfl⟩
    rw [otherFollows.texts_mapParagraphs fits, follows.texts_mapParagraphs fits]
  · intro reader source read
    rw [Template.fillThrough, read]
    simp only [bind, Except.bind, fill_eq]
    rfl

/-- A letter with tokens that are cut into runs, and with a merged cell. -/
def sampleLetter : Document :=
  { body := [
      .paragraph [.run "Dear \x7b", .run "name", .run "\x7d, \x7b\x7b city \x7d\x7d{x}"],
      .table [[.cell 2 [
        .paragraph [.run "{name}"],
        .table [[.cell 3 [.paragraph [.run "{{x}}"]]]]]]]] }

/-- The template of the letter. -/
def letterTemplate : List Part :=
  [(true, [.literal "Dear ".toList, .token "name".toList, .literal ", ".toList,
      .doubled " city ".toList, .token "x".toList]),
    (true, [.token "name".toList]),
    (true, [.doubled "x".toList])]

/-- Values for the letter, one of which it does not ask for. -/
def letterValues : Values := [("age", "7"), ("city", "Oslo\x7d"), ("name", "Ann")]

theorem filling_letter :
    ∃ filled, sampleLetter.fill? letterValues = some filled ∧
      filled.document.texts = [(true, "Dear Ann, Oslo\x7d{x}".toList), (true, "Ann".toList),
        (true, "{{x}}".toList)] ∧
      filled.unmatched = ["age"] := by
  have textsWritable :
      (sampleLetter.texts.all fun text => text.2.all isWritable) = true := by decide +kernel
  have valuesWritable :
      (letterValues.all fun entry => entry.2.toList.all isWritable) = true := by decide +kernel
  have follows : sampleLetter.Follows letterTemplate := {
    linkless := by unfold IsLinkless; decide +kernel
    texts_eq := by decide +kernel
    proper := by decide +kernel
    writable := by simpa only [List.all_eq_true] using textsWritable }
  have fits : Fits letterValues := {
    names := by decide +kernel
    plain := by decide +kernel
    nodup := by decide +kernel
    writable := by simpa only [List.all_eq_true] using valuesWritable }
  obtain ⟨filled, fill_eq, texts_eq, unmatched_eq, _⟩ := filling_is_substitution follows fits
  refine ⟨filled, fill_eq, texts_eq.trans ?_, unmatched_eq.trans ?_⟩
  · decide +kernel
  · decide +kernel

end Document

end Stencil.Word
