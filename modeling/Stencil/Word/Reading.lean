import Stencil.Package.Opening
import Stencil.Text.Digit
import Stencil.Word.Document

/-!
# Reading documents

An open package is read as a document.  The runs and links of a paragraph are its
direct children; tabs and breaks are characters of their text.  A paragraph
without runs and links is left out.  A section has a slot of its own when its
properties refer to a part for it.

What a document shares is read as if it stood apart: a cell that continues the one
above it is a cell of its own, and a part to which several slots refer is read for
each of them.
-/

namespace Stencil.Word

open Xml (Node)

/-- Why an open package cannot be read as a document. -/
inductive ReadError where
  /-- The main part has no body. -/
  | noBody
  /-- A section refers to a part by an id that is not in the table. -/
  | unknownRelation (id : String)
  deriving DecidableEq, Repr

/-- The value of an attribute of the vocabulary. -/
def value? (node : Node) (name : String) : Option String :=
  node.attribute? (named name)

/-- The text of a child of a run. -/
def runPiece (node : Node) : String :=
  if node.isNamed (named "t") then node.leadingText
  else if node.isNamed (named "tab") || node.isNamed (named "ptab") then "\t"
  else if node.isNamed (named "cr") then "\n"
  else if node.isNamed (named "noBreakHyphen") then "-"
  else if node.isNamed (named "br") then
    if (value? node "type").getD "textWrapping" == "textWrapping" then "\n" else ""
  else ""

/-- The text of a run. -/
def runOf (node : Node) : String :=
  String.join (node.children.map runPiece)

/-- A run or a link, if the child of a paragraph is one. -/
def inline? (node : Node) : Option Inline :=
  if node.isNamed (named "r") then some (.run (runOf node))
  else if node.isNamed (named "hyperlink") then
    some (.link (String.join ((node.childrenNamed (named "r")).map runOf)))
  else none

/-- The number that a text writes in ASCII digits. -/
def spanOf (text : String) : Nat :=
  if !text.isEmpty && text.toList.all Text.isAsciiDigit then
    (Text.decimalValue? text.toList).getD 1
  else 1

/-- The number of columns that a cell spans. -/
def cellSpan (node : Node) : Nat :=
  match node.child? (named "tcPr") with
  | some properties =>
    match properties.child? (named "gridSpan") with
    | some span => ((value? span "val").map spanOf).getD 1
    | none => 1
  | none => 1

mutual

/-- The block that an element is, if it is one that is kept. -/
def blockOf : Node → Option Block
  | .element name _ children =>
    if name == named "p" then
      let inlines := children.filterMap inline?
      if inlines.isEmpty then none else some (.paragraph inlines)
    else if name == named "tbl" then some (.table (rowsOf children))
    else none
  | _ => none

/-- The blocks among siblings. -/
def blocksOf : List Node → List Block
  | [] => []
  | node :: rest =>
    match blockOf node with
    | some block => block :: blocksOf rest
    | none => blocksOf rest

/-- The rows among the children of a table. -/
def rowsOf : List Node → List (List Cell)
  | [] => []
  | .element name _ children :: rest =>
    if name == named "tr" then cellsOf children :: rowsOf rest else rowsOf rest
  | _ :: rest => rowsOf rest

/-- The cells among the children of a row. -/
def cellsOf : List Node → List Cell
  | [] => []
  | .element name attributes children :: rest =>
    if name == named "tc" then
      .cell (cellSpan (.element name attributes children)) (blocksOf children) :: cellsOf rest
    else cellsOf rest
  | _ :: rest => cellsOf rest

end

/-- The properties of the sections within a body. -/
def sectionNodes (body : Node) : List Node :=
  body.children.flatMap fun child =>
    if child.isNamed (named "sectPr") then [child]
    else if child.isNamed (named "p") then
      (child.childrenNamed (named "pPr")).flatMap fun own => own.childrenNamed (named "sectPr")
    else []

/-- The id of the part that fills a slot of a section, if the section has its own. -/
def slotId? (properties : Node) (slot : Slot) : Option String :=
  ((properties.childrenNamed (named (slot.kind ++ "Reference"))).find? fun node =>
      value? node "type" == some slot.pages).map fun node =>
    (node.attribute? ⟨relationSpace, "id"⟩).getD ""

/-- The content of a slot of a section. -/
def slotOf (opened : OpenPackage) (properties : Node) (slot : Slot) :
    Except ReadError (Option (Slot × List Block)) :=
  match slotId? properties slot with
  | none => .ok none
  | some id =>
    match opened.related.lookup id with
    | some root => .ok (some (slot, blocksOf ((root.map Node.children).getD [])))
    | none => .error (.unknownRelation id)

/-- The section with some properties. -/
def sectionOf (opened : OpenPackage) (properties : Node) : Except ReadError Section := do
  let slots ← Slot.all.mapM (slotOf opened properties)
  return slots.filterMap id

namespace Document

/-- Reads an open package. -/
def ofPackage (opened : OpenPackage) : Except ReadError Document :=
  if !opened.main.isNamed (named "document") then .error .noBody
  else
    match opened.main.child? (named "body") with
    | none => .error .noBody
    | some body => do
      let sections ← (sectionNodes body).mapM (sectionOf opened)
      return { body := blocksOf body.children, sections }

end Document

end Stencil.Word
