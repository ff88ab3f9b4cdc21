import Stencil.Word.Vocabulary

/-!
# The texts of paragraphs

A token may be cut into several text elements, so the texts of a part are joined
paragraph by paragraph before they are scanned.  A text element belongs to the
nearest paragraph around it.  The paragraphs come in the order of their first
text elements, and behind them, one by one, the text elements outside of any
paragraph.
-/

namespace Stencil.Word

/-- The way to a node: the positions of the nodes on it among their siblings, the
innermost first. -/
abbrev Path := List Nat

/-- The text of a text element and the nearest paragraph around it. -/
structure TextPiece where
  owner : Option Path
  text : String
  deriving DecidableEq, Repr, Inhabited

namespace TextPiece

mutual

/-- The text elements of a node in document order. -/
def ofNode (owner : Option Path) (path : Path) : Xml.Node → List TextPiece
  | .element name _ children =>
    let inside := if name == named "p" then some path else owner
    let below := ofNodes inside path 0 children
    if name == named "t" then ⟨owner, Xml.Node.textBefore children⟩ :: below else below
  | _ => []

/-- The text elements of siblings from a position on. -/
def ofNodes (owner : Option Path) (path : Path) (position : Nat) : List Xml.Node → List TextPiece
  | [] => []
  | node :: rest =>
    ofNode owner (position :: path) node ++ ofNodes owner path (position + 1) rest

end

/-- The text elements of a tree in document order. -/
def ofRoot (root : Xml.Node) : List TextPiece :=
  ofNode none [] root

/-- The text of the pieces that belong to a paragraph. -/
def joinedText (pieces : List TextPiece) (paragraph : Path) : String :=
  String.join ((pieces.filter fun piece => piece.owner == some paragraph).map (·.text))

end TextPiece

/-- The texts of the paragraphs of a part and of the text elements outside of
them. -/
def paragraphTexts (root : Xml.Node) : List String :=
  let pieces := TextPiece.ofRoot root
  (pieces.filterMap (·.owner)).eraseDups.map (TextPiece.joinedText pieces)
    ++ (pieces.filter (·.owner.isNone)).map (·.text)

end Stencil.Word
