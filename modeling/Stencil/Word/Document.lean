/-!
# Documents

A document as it matters for filling: a body and sections with headers and
footers, made up of paragraphs and tables.  A paragraph holds runs of text and
links.  A cell of a table spans one or more columns.

`paragraphs` lists all paragraphs, each with the number of times it is visited
when a document is read column by column: a cell is visited once for every column
it spans, and so are the cells inside of it.
-/

namespace Stencil.Word

/-- A piece of a paragraph: a run of text, or a link, whose text cannot be changed. -/
inductive Inline where
  | run (text : String)
  | link (text : String)
  deriving DecidableEq, Repr, Inhabited

mutual

/-- A paragraph or a table. -/
inductive Block where
  | paragraph (inlines : List Inline)
  | table (rows : List (List Cell))

/-- A cell of a table. -/
inductive Cell where
  | cell (span : Nat) (blocks : List Block)

end

instance : Inhabited Block := ⟨.paragraph []⟩

instance : Inhabited Cell := ⟨.cell 1 []⟩

/-- The headers and footers that a section can have. -/
inductive Slot where
  | header
  | footer
  | firstHeader
  | firstFooter
  | evenHeader
  | evenFooter
  deriving DecidableEq, Repr, Inhabited

namespace Slot

/-- All slots in order. -/
def all : List Slot := [header, footer, firstHeader, firstFooter, evenHeader, evenFooter]

/-- The name of a slot. -/
def name : Slot → String
  | header => "header"
  | footer => "footer"
  | firstHeader => "first_header"
  | firstFooter => "first_footer"
  | evenHeader => "even_header"
  | evenFooter => "even_footer"

/-- The kind of part that fills a slot. -/
def kind : Slot → String
  | header | firstHeader | evenHeader => "header"
  | footer | firstFooter | evenFooter => "footer"

/-- The pages on which a slot is shown. -/
def pages : Slot → String
  | header | footer => "default"
  | firstHeader | firstFooter => "first"
  | evenHeader | evenFooter => "even"

end Slot

/-- A section: the content of the slots that are its own, in the order of slots. -/
abbrev Section := List (Slot × List Block)

/-- A document. -/
structure Document where
  body : List Block := []
  sections : List Section := []
  deriving Inhabited

/-- The text of a piece. -/
def Inline.text : Inline → String
  | run text => text
  | link text => text

/-- Tells whether a piece is a run. -/
def Inline.isRun : Inline → Bool
  | run _ => true
  | link _ => false

/-- The text of a paragraph, links included. -/
def textOf (inlines : List Inline) : String :=
  String.join (inlines.map Inline.text)

namespace Block

mutual

/-- The paragraphs of a block with the numbers of their visits, when the block itself
is visited a number of times. -/
def paragraphs (visits : Nat) : Block → List (Nat × List Inline)
  | paragraph inlines => [(visits, inlines)]
  | table rows => paragraphsOfRows visits rows

/-- The paragraphs of several blocks. -/
def paragraphsOf (visits : Nat) : List Block → List (Nat × List Inline)
  | [] => []
  | block :: rest => paragraphs visits block ++ paragraphsOf visits rest

/-- The paragraphs of the cells of a row. -/
def paragraphsOfCells (visits : Nat) : List Cell → List (Nat × List Inline)
  | [] => []
  | .cell span blocks :: rest =>
    paragraphsOf (visits * span) blocks ++ paragraphsOfCells visits rest

/-- The paragraphs of the rows of a table. -/
def paragraphsOfRows (visits : Nat) : List (List Cell) → List (Nat × List Inline)
  | [] => []
  | row :: rest => paragraphsOfCells visits row ++ paragraphsOfRows visits rest

end

mutual

/-- Changes the paragraphs of a block; the change is told the number of visits. -/
def mapParagraphs (change : Nat → List Inline → List Inline) (visits : Nat) : Block → Block
  | paragraph inlines => paragraph (change visits inlines)
  | table rows => table (mapRows change visits rows)

/-- Changes the paragraphs of several blocks. -/
def mapBlocks (change : Nat → List Inline → List Inline) (visits : Nat) :
    List Block → List Block
  | [] => []
  | block :: rest => mapParagraphs change visits block :: mapBlocks change visits rest

/-- Changes the paragraphs of the cells of a row. -/
def mapCells (change : Nat → List Inline → List Inline) (visits : Nat) : List Cell → List Cell
  | [] => []
  | .cell span blocks :: rest =>
    .cell span (mapBlocks change (visits * span) blocks) :: mapCells change visits rest

/-- Changes the paragraphs of the rows of a table. -/
def mapRows (change : Nat → List Inline → List Inline) (visits : Nat) :
    List (List Cell) → List (List Cell)
  | [] => []
  | row :: rest => mapCells change visits row :: mapRows change visits rest

end

end Block

namespace Document

/-- The contents of all slots of a document. -/
def slotContents (document : Document) : List (List Block) :=
  document.sections.flatMap fun own => own.map (·.2)

/-- The paragraphs of a document with the numbers of their visits. -/
def paragraphs (document : Document) : List (Nat × List Inline) :=
  Block.paragraphsOf 1 document.body ++ document.slotContents.flatMap (Block.paragraphsOf 1)

/-- Changes the paragraphs of a document. -/
def mapParagraphs (change : Nat → List Inline → List Inline) (document : Document) : Document :=
  { body := Block.mapBlocks change 1 document.body
    sections := document.sections.map fun own =>
      own.map fun (slot, blocks) => (slot, Block.mapBlocks change 1 blocks) }

end Document

end Stencil.Word
