import Mathlib.Data.List.Basic
import Stencil.Word.ParagraphText

/-!
# The text of a paragraph

The nodes of a tree are listed in document order, and its text elements among them.  A paragraph
without further paragraphs inside owns all of its text elements, however deep they are, so its
text is what they hold together.
-/

namespace Stencil

namespace Xml.Node

mutual

/-- A node and all nodes inside of it, in document order. -/
def preorder : Node → List Node
  | element name attributes children => element name attributes children :: preorderAll children
  | text content => [text content]
  | aside => [aside]

/-- Siblings and all nodes inside of them, in document order. -/
def preorderAll : List Node → List Node
  | [] => []
  | node :: rest => preorder node ++ preorderAll rest

end

end Xml.Node

namespace Word

open Xml (Node)

/-- The texts of the text elements among nodes. -/
def elementTexts (nodes : List Node) : List String :=
  (nodes.filter (Node.isNamed (named "t"))).map Node.leadingText

/-- No node is a paragraph. -/
def NoParagraph (nodes : List Node) : Prop :=
  ∀ node ∈ nodes, node.isNamed (named "p") = false

instance (nodes : List Node) : Decidable (NoParagraph nodes) :=
  List.decidableBAll _ nodes

theorem elementTexts_append (nodes others : List Node) :
    elementTexts (nodes ++ others) = elementTexts nodes ++ elementTexts others := by
  rw [elementTexts, List.filter_append, List.map_append]
  rfl

theorem NoParagraph.of_append {nodes others : List Node} (free : NoParagraph (nodes ++ others)) :
    NoParagraph nodes ∧ NoParagraph others :=
  List.forall_mem_append.mp free

namespace TextPiece

mutual

/-- Where no paragraph begins, the text elements keep the owner from outside. -/
theorem ofNode_of_noParagraph (owner : Option Path) (path : Path) (node : Node)
    (free : NoParagraph node.preorder) :
    ofNode owner path node = (elementTexts node.preorder).map (TextPiece.mk owner) := by
  cases node with
  | text content => rfl
  | aside => rfl
  | element name attributes children =>
      rcases List.forall_mem_cons.mp free with ⟨notParagraph, inside⟩
      have below := ofNodes_of_noParagraph owner path 0 children inside
      have other : (name == named "p") = false := notParagraph
      simp only [ofNode, other, Bool.false_eq_true, if_false, below, Node.preorder]
      by_cases isText : name = named "t"
      · simp [elementTexts, Node.isNamed, isText, Node.leadingText, Node.children]
      · simp [elementTexts, Node.isNamed, isText]

theorem ofNodes_of_noParagraph (owner : Option Path) (path : Path) (position : Nat)
    (nodes : List Node) (free : NoParagraph (Node.preorderAll nodes)) :
    ofNodes owner path position nodes =
      (elementTexts (Node.preorderAll nodes)).map (TextPiece.mk owner) := by
  cases nodes with
  | nil => rfl
  | cons node rest =>
      obtain ⟨nodeFree, restFree⟩ := NoParagraph.of_append free
      rw [ofNodes, ofNode_of_noParagraph owner (position :: path) node nodeFree,
        ofNodes_of_noParagraph owner path (position + 1) rest restFree, Node.preorderAll,
        elementTexts_append, List.map_append]

end

/-- A paragraph without further paragraphs inside owns all its text elements. -/
theorem ofRoot_paragraph {children : List Node} (attributes : List Xml.Attribute)
    (free : NoParagraph (Node.preorderAll children)) :
    ofRoot (.element (named "p") attributes children) =
      (elementTexts (Node.preorderAll children)).map (TextPiece.mk (some [])) := by
  have notText : (named "p" == named "t") = false := by decide
  simp only [ofRoot, ofNode, beq_self_eq_true, if_true, notText, Bool.false_eq_true, if_false]
  exact ofNodes_of_noParagraph (some []) [] 0 children free

end TextPiece

/-- The paragraphs that own a text element, in the order of their first ones. -/
def textParagraphs (root : Node) : List Path :=
  ((TextPiece.ofRoot root).filterMap (·.owner)).eraseDups

/-- The texts of the text elements outside of paragraphs. -/
def looseTexts (root : Node) : List String :=
  ((TextPiece.ofRoot root).filter (·.owner.isNone)).map (·.text)

theorem paragraphTexts_eq (root : Node) :
    paragraphTexts root =
      (textParagraphs root).map (TextPiece.joinedText (TextPiece.ofRoot root)) ++
        looseTexts root :=
  rfl

/-- Pieces of a single owner make up one text. -/
theorem joinedText_of_owner (texts : List String) (paragraph : Path) :
    TextPiece.joinedText (texts.map (TextPiece.mk (some paragraph))) paragraph =
      String.join texts := by
  simp [TextPiece.joinedText, List.filter_map, Function.comp_def]

/-- The text of a paragraph without further paragraphs inside is what its text elements hold
together; without text elements there is none. -/
theorem paragraphTexts_paragraph {children : List Node} (attributes : List Xml.Attribute)
    (free : NoParagraph (Node.preorderAll children)) :
    paragraphTexts (.element (named "p") attributes children) =
      if elementTexts (Node.preorderAll children) = [] then []
      else [String.join (elementTexts (Node.preorderAll children))] := by
  simp only [paragraphTexts_eq, textParagraphs, looseTexts,
    TextPiece.ofRoot_paragraph attributes free]
  cases elementTexts (Node.preorderAll children) with
  | nil => rfl
  | cons first rest =>
      have owners : (((first :: rest).map (TextPiece.mk (some []))).filterMap (·.owner)).eraseDups =
          [[]] := by
        simp [List.filterMap_map, List.eraseDups_cons]
      have noneLoose : (((first :: rest).map (TextPiece.mk (some []))).filter
          (·.owner.isNone)) = [] := by
        simp [List.filter_map, Function.comp_def]
      rw [owners, noneLoose, List.map_singleton, joinedText_of_owner,
        if_neg (List.cons_ne_nil first rest)]
      rfl

end Word

end Stencil
