import Stencil.Package.Opening
import Stencil.Word.Document

/-!
# Writing documents

A document is written as the entries of a package: the tables, the body, and a
part for every slot that a section has of its own.  Headers and footers are
numbered separately, section by section.  A section is described by its
properties, which refer to the parts of its slots; those of the last section end
the body, and those of any other stand in a paragraph of their own.
-/

namespace Stencil.Word

/-- The text of a part that is written, as it grows. -/
abbrev Markup := List Char

/-- A character in markup. -/
def escapedChar (c : Char) : Markup :=
  match c with
  | '&' => "&amp;".toList
  | '<' => "&lt;".toList
  | '>' => "&gt;".toList
  | '"' => "&quot;".toList
  | c => [c]

/-- A text in markup. -/
def escaped (text : List Char) : Markup :=
  text.flatMap escapedChar

/-- An element with attributes around some content. -/
def tagged (tag attributes : String) (content : Markup) : Markup :=
  ("<w:" ++ tag ++ attributes ++ ">").toList ++ content ++ ("</w:" ++ tag ++ ">").toList

/-- An attribute. -/
def property (name value : String) : String :=
  " " ++ name ++ "=\"" ++ String.ofList (escaped value.toList) ++ "\""

/-- A text element, unless its text is empty. -/
def textElement (text : List Char) : Markup :=
  if text.isEmpty then [] else tagged "t" (property "xml:space" "preserve") (escaped text)

/-- The content of a run; tabs and line ends are elements.  `seen` is the text since the
last of them, last character first. -/
def runMarkup (seen : List Char) : List Char → Markup
  | [] => textElement seen.reverse
  | c :: rest =>
    if c == '\t' then textElement seen.reverse ++ "<w:tab/>".toList ++ runMarkup [] rest
    else if c == '\n' || c == '\r' then
      textElement seen.reverse ++ "<w:br/>".toList ++ runMarkup [] rest
    else runMarkup (c :: seen) rest

/-- A run. -/
def run (text : String) : Markup :=
  tagged "r" "" (runMarkup [] text.toList)

/-- A piece of a paragraph. -/
def inlineMarkup : Inline → Markup
  | .run text => run text
  | .link text => tagged "hyperlink" "" (run text)

/-- The number of columns that a row needs. -/
def columnsOf : List Cell → Nat
  | [] => 0
  | .cell span _ :: rest => span + columnsOf rest

mutual

/-- A block. -/
def blockMarkup : Block → Markup
  | .paragraph inlines => tagged "p" "" (inlines.flatMap inlineMarkup)
  | .table rows => tagged "tbl" "" (rowsMarkup ((rows.map columnsOf).foldl max 0) rows)

/-- Several blocks. -/
def blocksMarkup : List Block → Markup
  | [] => []
  | block :: rest => blockMarkup block ++ blocksMarkup rest

/-- The cells of a row. -/
def cellsMarkup : List Cell → Markup
  | [] => []
  | .cell span blocks :: rest =>
    tagged "tc" "" (tagged "tcPr" "" (tagged "gridSpan" (property "w:val" (toString span)) [])
      ++ blocksMarkup blocks) ++ cellsMarkup rest

/-- The rows of a table, filled up with empty cells to a number of columns. -/
def rowsMarkup (columns : Nat) : List (List Cell) → Markup
  | [] => []
  | row :: rest =>
    tagged "tr" "" (cellsMarkup row
      ++ (List.replicate (columns - columnsOf row) (tagged "tc" "" [])).flatten)
      ++ rowsMarkup columns rest

end

/-- The declaration of the namespaces that are used. -/
def bindings : String :=
  property "xmlns:w" space ++ property "xmlns:r" relationSpace

/-- A part for a slot: its name, its id in the table of relations, and its blocks. -/
structure SlotPart where
  slot : Slot
  name : String
  id : String
  blocks : List Block
  deriving Inhabited

namespace SlotPart

/-- The number of a new part of a kind. -/
def nextNumber (parts : List SlotPart) (kind : String) : Nat :=
  (parts.filter fun part => part.slot.kind == kind).length + 1

/-- Adds the part of a slot to those of earlier slots. -/
def add (parts : List SlotPart) (slot : Slot) (blocks : List Block) : SlotPart :=
  { slot
    name := slot.kind ++ toString (nextNumber parts slot.kind) ++ ".xml"
    id := "rId" ++ toString (parts.length + 1)
    blocks }

/-- The parts of a section behind those of earlier sections. -/
def ofSection (parts : List SlotPart) (own : Section) : List SlotPart :=
  own.foldl (fun added (slot, blocks) => added ++ [add (parts ++ added) slot blocks]) []

/-- The parts of all sections, section by section. -/
def ofSections (sections : List Section) : List (List SlotPart) :=
  sections.foldl (fun done own => done ++ [ofSection done.flatten own]) []

/-- The reference to the part of a slot. -/
def reference (part : SlotPart) : Markup :=
  tagged (part.slot.kind ++ "Reference")
    (property "w:type" part.slot.pages ++ property "r:id" part.id) []

/-- The content of the part of a slot. -/
def content (part : SlotPart) : Bytes :=
  let tag := if part.slot.kind == "header" then "hdr" else "ftr"
  Utf8.encode (tagged tag bindings (blocksMarkup part.blocks))

end SlotPart

/-- The properties of a section. -/
def sectionMarkup (parts : List SlotPart) : Markup :=
  tagged "sectPr" "" (parts.flatMap SlotPart.reference)

/-- The properties of all sections, those before the last in paragraphs. -/
def sectionsMarkup : List (List SlotPart) → Markup
  | [] => []
  | [last] => sectionMarkup last
  | parts :: rest => tagged "p" "" (tagged "pPr" "" (sectionMarkup parts)) ++ sectionsMarkup rest

/-- A table of relations. -/
def relationTable (relations : List Relation) : Bytes :=
  let rows := relations.map fun relation =>
    "<Relationship" ++ property "Id" relation.id ++ property "Type" relation.type
      ++ property "Target" relation.target ++ "/>"
  Utf8.encodeString ("<Relationships" ++ property "xmlns" relationTableSpace ++ ">"
    ++ String.join rows ++ "</Relationships>")

/-- The entries that make an archive a document: the table of content types, the
relation to the body and the relations of the body. -/
def tables (relations : List Relation) : List (String × Bytes) :=
  [("[Content_Types].xml",
      Utf8.encodeString ("<Types" ++ property "xmlns" contentTypeSpace ++ "/>")),
    ("_rels/.rels", relationTable
      [{ id := "rId1", type := Relation.mainType, target := "word/document.xml" }]),
    ("word/_rels/document.xml.rels", relationTable relations)]

namespace Document

/-- The sections of a document, of which there is at least one. -/
def writtenSections (document : Document) : List Section :=
  if document.sections.isEmpty then [[]] else document.sections

/-- The package of a document. -/
def toArchive (document : Document) : Archive :=
  let parts := SlotPart.ofSections document.writtenSections
  let relations := parts.flatten.map fun part =>
    { id := part.id, type := Relation.partType part.slot.kind, target := part.name }
  { entries := tables relations
      ++ [("word/document.xml", Utf8.encode <|
        tagged "document" bindings <|
          tagged "body" "" (blocksMarkup document.body ++ sectionsMarkup parts))]
      ++ parts.flatten.map fun part => ("word/" ++ part.name, part.content) }

end Document

end Stencil.Word
