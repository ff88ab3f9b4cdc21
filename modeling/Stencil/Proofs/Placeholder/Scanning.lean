import Stencil.Proofs.Placeholder.Nesting
import Stencil.Proofs.Word.ParagraphText

/-!
# Scanning what was written

A text that is written of pieces has the tokens that it was written with: their names are scanned
in order and with repeats, and no token begins or ends anywhere else.  The text elements of
a paragraph are joined before they are scanned, so it does not matter where the text is cut, be it
within a brace of two.
-/

namespace Stencil

namespace Segment

/-- The names of the tokens among pieces, in order and with repeats.  A blank one names
nothing. -/
def names (segments : List Segment) : List (List Char) :=
  (segments.filterMap name?).filter fun name => !name.isEmpty

end Segment

namespace Token

/-- What stands between the braces of a piece is cleaned to its name. -/
theorem map_clean_body? {segment : Segment} (readable : segment.IsReadable) :
    segment.body?.map clean = segment.name? := by
  cases segment with
  | literal text => rfl
  | token inside => exact congrArg some (clean_of_braceFree readable)
  | doubled inside =>
      have front : ∀ c ∈ ([] : List Char), c = openBrace ∨ Text.isBlank c = true := by simp
      exact congrArg some (clean_of_front front readable)

/-- Scanning undoes writing. -/
theorem scan_textOf {segments : List Segment}
    (readable : ∀ segment ∈ segments, segment.IsReadable) :
    scan (Segment.textOf segments) = Segment.names segments := by
  rw [scan, bodies_textOf readable, List.map_filterMap, Segment.names]
  congr 1
  exact List.filterMap_congr fun segment segmentMem =>
    map_clean_body? (readable segment segmentMem)

theorem namesIn_of_text {segments : List Segment}
    (readable : ∀ segment ∈ segments, segment.IsReadable) {text : String}
    (text_eq : text.toList = Segment.textOf segments) :
    namesIn text = (Segment.names segments).map String.ofList := by
  rw [namesIn, text_eq, scan_textOf readable]

end Token

namespace Word

/-- The content of a paragraph is written of pieces: no paragraph is inside of it, and its text
elements together hold the text of the pieces, wherever it is cut. -/
structure IsWrittenOf (segments : List Segment) (children : List Xml.Node) : Prop where
  noParagraph : NoParagraph (Xml.Node.preorderAll children)
  text_eq : (elementTexts (Xml.Node.preorderAll children)).flatMap String.toList =
    Segment.textOf segments

instance (segments : List Segment) (children : List Xml.Node) :
    Decidable (IsWrittenOf segments children) :=
  decidable_of_iff (NoParagraph (Xml.Node.preorderAll children) ∧
      (elementTexts (Xml.Node.preorderAll children)).flatMap String.toList =
        Segment.textOf segments)
    ⟨fun written => ⟨written.1, written.2⟩, fun written => ⟨written.noParagraph, written.text_eq⟩⟩

end Word

namespace Extraction

variable {segments : List Segment}

/-- The tokens of a paragraph are those that it was written with. -/
theorem tokensOf_paragraph (readable : ∀ segment ∈ segments, segment.IsReadable)
    {children : List Xml.Node} (written : Word.IsWrittenOf segments children)
    (attributes : List Xml.Attribute) :
    tokensOf (.element (Word.named "p") attributes children) =
      (Segment.names segments).map String.ofList := by
  rw [tokensOf, Word.paragraphTexts_paragraph attributes written.noParagraph]
  have text_eq := written.text_eq
  split
  · next textless =>
      rw [textless, List.flatMap_nil] at text_eq
      have empty : ("" : String).toList = Segment.textOf segments := text_eq
      rw [← Token.namesIn_of_text readable empty]
      rfl
  · rw [List.flatMap_singleton]
    apply Token.namesIn_of_text readable
    rw [String.toList_join, text_eq]

/-- The tokens of a document are those that its paragraphs were written with, paragraph by
paragraph, and behind them those of the texts outside of paragraphs. -/
theorem tokensOf_document {root : Xml.Node} {segmentsOf : Word.Path → List Segment}
    (readable : ∀ paragraph ∈ Word.textParagraphs root,
      ∀ segment ∈ segmentsOf paragraph, segment.IsReadable)
    (text_eq : ∀ paragraph ∈ Word.textParagraphs root,
      (Word.TextPiece.joinedText (Word.TextPiece.ofRoot root) paragraph).toList =
        Segment.textOf (segmentsOf paragraph)) :
    tokensOf root =
      (Word.textParagraphs root).flatMap (fun paragraph =>
        (Segment.names (segmentsOf paragraph)).map String.ofList) ++
      (Word.looseTexts root).flatMap Token.namesIn := by
  rw [tokensOf, Word.paragraphTexts_eq, List.flatMap_append, List.flatMap_map]
  congr 1
  exact List.flatMap_congr fun paragraph paragraphMem =>
    Token.namesIn_of_text (readable paragraph paragraphMem) (text_eq paragraph paragraphMem)

/-- Extraction undoes writing: the tokens of a paragraph that is written of pieces are their names,
wherever its text is cut, and those of a document are the names in its paragraphs one after the
other. -/
theorem extraction_undoes_writing :
    (∀ segments children attributes, (∀ segment ∈ segments, segment.IsReadable) →
      Word.IsWrittenOf segments children →
        tokensOf (.element (Word.named "p") attributes children) =
          (Segment.names segments).map String.ofList) ∧
    ∀ (root : Xml.Node) (segmentsOf : Word.Path → List Segment),
      (∀ paragraph ∈ Word.textParagraphs root,
        (∀ segment ∈ segmentsOf paragraph, segment.IsReadable) ∧
        (Word.TextPiece.joinedText (Word.TextPiece.ofRoot root) paragraph).toList =
          Segment.textOf (segmentsOf paragraph)) →
      tokensOf root =
        (Word.textParagraphs root).flatMap (fun paragraph =>
          (Segment.names (segmentsOf paragraph)).map String.ofList) ++
        (Word.looseTexts root).flatMap Token.namesIn := by
  constructor
  · intro segments children attributes readable written
    exact tokensOf_paragraph readable written attributes
  · intro root segmentsOf written
    apply tokensOf_document
    · exact fun paragraph paragraphMem => (written paragraph paragraphMem).1
    · exact fun paragraph paragraphMem => (written paragraph paragraphMem).2

/-- A run of one text element. -/
def textRun (text : String) : Xml.Node :=
  .element (Word.named "r") [] [.element (Word.named "t") [] [.text text]]

/-- Pieces next to stray closing braces, with a blank name and a repeated one. -/
def crowdedSegments : List Segment :=
  [.literal "To \x7d".toList, .token " Name ".toList, .literal "\x7d ".toList,
    .doubled "Sign Date".toList, .token " \t".toList, .token "Name".toList]

/-- The runs of a paragraph, and a link, that are cut within braces and names. -/
def crowdedRuns : List Xml.Node :=
  [textRun "To \x7d\x7b Na", textRun "me \x7d", textRun "\x7d \x7b",
    .element (Word.named "hyperlink") [] [textRun "\x7bSign", .aside, textRun " Date\x7d"],
    textRun "\x7d\x7b \t\x7d\x7bName", textRun "\x7d"]

/-- A document of that paragraph, a cell of a table with a token cut in two, and a loose text. -/
def crowdedBody : Xml.Node :=
  .element (Word.named "body") [] [
    .element (Word.named "p") [] crowdedRuns,
    .element (Word.named "tc") [] [
      .element (Word.named "p") [] [textRun "\x7bTo", textRun "tal\x7d"]],
    textRun "\x7bLoose\x7d"]

theorem extraction_undoes_crowdedSegments :
    tokensOf (.element (Word.named "p") [] crowdedRuns) = ["Name", "Sign Date", "Name"] ∧
    tokensOf crowdedBody = ["Name", "Sign Date", "Name", "Total", "Loose"] := by
  have paragraphs_eq : Word.textParagraphs crowdedBody = [[0], [0, 1]] := by decide +kernel
  constructor
  · exact extraction_undoes_writing.1 crowdedSegments crowdedRuns [] (by decide) (by decide)
  · refine (extraction_undoes_writing.2 crowdedBody
      (fun paragraph => if paragraph = [0] then crowdedSegments else [.token "Total".toList])
      ?_).trans ?_
    · rw [paragraphs_eq]
      decide +kernel
    · rw [paragraphs_eq]
      decide +kernel

end Extraction

end Stencil
