import Stencil.Proofs.Distinct
import Stencil.Proofs.Word.ParagraphText
import Stencil.Proofs.Xml.Place

/-!
# The paragraphs of a part

A text element belongs to the nearest paragraph around it, wherever it stands in the tree.  The texts
of a part are described by places in its tree: which text elements there are and in which order, and
which paragraph each of them belongs to.  Seen from a paragraph, its own text elements are those
inside of it that are in no further paragraph, so a paragraph within another one leaves the text of
the outer one together.
-/

namespace Stencil.Word

open Xml (Node)
open Xml.Node (Before placed placedAll)

/-! ### What the texts of a part have to be -/

/-- The nearest paragraph around a place. -/
def paragraphAround? (root : Node) : Path → Option Path
  | [] => none
  | _ :: above =>
    if (root.at? above).any (Node.isNamed (named "p")) then some above
    else paragraphAround? root above

/-- There is a text element at a place. -/
def IsTextElement (root : Node) (place : Path) : Prop :=
  ∃ node, root.at? place = some node ∧ node.isNamed (named "t") = true

/-- The text of the element at a place. -/
def textAt (root : Node) (place : Path) : String :=
  ((root.at? place).map Node.leadingText).getD ""

/-- The text elements of a part, each once and in document order. -/
structure AreTextElements (root : Node) (elements : List Path) : Prop where
  mem_iff : ∀ place, place ∈ elements ↔ IsTextElement root place
  ordered : elements.Pairwise Before

/-- The paragraphs to which text elements belong, each once and in the order of the first of their
text elements. -/
structure AreOwners (root : Node) (elements paragraphs : List Path) : Prop where
  mem_iff : ∀ paragraph, paragraph ∈ paragraphs ↔
    ∃ place ∈ elements, paragraphAround? root place = some paragraph
  nodup : paragraphs.Nodup
  ordered : paragraphs.Pairwise fun paragraph later =>
    ∃ place ∈ elements, paragraphAround? root place = some paragraph ∧
      ∀ other ∈ elements, paragraphAround? root other = some later → Before place other

/-- The text elements that belong to a paragraph, or to none. -/
def ownedBy (root : Node) (elements : List Path) (owner : Option Path) : List Path :=
  elements.filter fun place => paragraphAround? root place == owner

mutual

/-- The texts of the text elements in a node, itself included, that are in no paragraph in it. -/
def ownTexts : Node → List String
  | .element name _ children =>
    if name == named "p" then []
    else if name == named "t" then Node.textBefore children :: ownTextsAll children
    else ownTextsAll children
  | _ => []

/-- The texts of the text elements among siblings that are in no paragraph among them. -/
def ownTextsAll : List Node → List String
  | [] => []
  | node :: rest => ownTexts node ++ ownTextsAll rest

end

variable {root node : Node} {place : Path}

/-! ### The pieces of a part by their places -/

/-- The places of the text elements among nodes with places. -/
def textPlaces (nodes : List (Path × Node)) : List Path :=
  (nodes.filter fun entry => entry.2.isNamed (named "t")).map (·.1)

theorem textPlaces_append (nodes others : List (Path × Node)) :
    textPlaces (nodes ++ others) = textPlaces nodes ++ textPlaces others := by
  rw [textPlaces, List.filter_append, List.map_append]
  rfl

theorem textPlaces_cons (place : Path) (node : Node) (rest : List (Path × Node)) :
    textPlaces ((place, node) :: rest) =
      if node.isNamed (named "t") then place :: textPlaces rest else textPlaces rest := by
  rw [textPlaces, List.filter_cons, apply_ite (List.map _)]
  rfl

/-- The piece of the text element at a place. -/
def pieceAt (root : Node) (place : Path) : TextPiece :=
  ⟨paragraphAround? root place, textAt root place⟩

/-- What stands below a paragraph belongs to it, and what stands below another node belongs where
that node does. -/
theorem paragraphAround?_cons (found : root.at? place = some node) (position : Nat) :
    paragraphAround? root (position :: place) =
      if node.isNamed (named "p") then some place else paragraphAround? root place := by
  rw [paragraphAround?, found, Option.any_some]

/-- Siblings belong to the same paragraph. -/
theorem paragraphAround?_sibling (root : Node) (parent : Path) (position other : Nat) :
    paragraphAround? root (position :: parent) = paragraphAround? root (other :: parent) :=
  rfl

namespace TextPiece

mutual

/-- The pieces of a node are those of the text elements that are listed in it. -/
theorem ofNode_eq (root : Node) (place : Path) (node : Node) (found : root.at? place = some node) :
    ofNode (paragraphAround? root place) place node =
      (textPlaces (placed place node)).map (pieceAt root) := by
  cases node with
  | text content => rfl
  | aside => rfl
  | element name attributes children =>
      have named_eq (own : Xml.Name) :
          (Node.element name attributes children).isNamed own = (name == own) := rfl
      have below := ofNodes_eq root place _ found 0 children rfl
      rw [paragraphAround?_cons found, named_eq] at below
      have here : pieceAt root place =
          ⟨paragraphAround? root place, Node.textBefore children⟩ := by
        simp [pieceAt, textAt, found, Node.leadingText, Node.children]
      rw [placed, textPlaces_cons, named_eq]
      simp only [ofNode]
      split
      · rw [below, List.map_cons, here]
      · rw [below]

theorem ofNodes_eq (root : Node) (parent : Path) (node : Node) (found : root.at? parent = some node)
    (position : Nat) (nodes : List Node) (rest : node.children.drop position = nodes) :
    ofNodes (paragraphAround? root (position :: parent)) parent position nodes =
      (textPlaces (placedAll parent position nodes)).map (pieceAt root) := by
  cases nodes with
  | nil => rfl
  | cons child others =>
      obtain ⟨at_child, behind⟩ := Node.at?_child found rest
      have later := ofNodes_eq root parent node found (position + 1) others behind
      rw [paragraphAround?_sibling root parent (position + 1) position] at later
      rw [ofNodes, ofNode_eq root _ child at_child, later, placedAll, textPlaces_append,
        List.map_append]

end

/-- The pieces of a part are those of its text elements in document order. -/
theorem ofRoot_eq (root : Node) :
    ofRoot root = (textPlaces (placed [] root)).map (pieceAt root) :=
  ofNode_eq root [] root rfl

end TextPiece

theorem mem_textPlaces {nodes : List (Path × Node)} :
    place ∈ textPlaces nodes ↔ ∃ node, (place, node) ∈ nodes ∧ node.isNamed (named "t") = true := by
  simp only [textPlaces, List.mem_map, List.mem_filter, Prod.exists]
  constructor
  · rintro ⟨_, node, given, rfl⟩
    exact ⟨node, given⟩
  · rintro ⟨node, given⟩
    exact ⟨place, node, given, rfl⟩

theorem pairwise_textPlaces {nodes : List (Path × Node)}
    (ordered : nodes.Pairwise fun first second => Before first.1 second.1) :
    (textPlaces nodes).Pairwise Before := by
  rw [textPlaces, List.pairwise_map]
  exact ordered.filter _

theorem areTextElements_textPlaces (root : Node) :
    AreTextElements root (textPlaces (placed [] root)) where
  mem_iff place := by
    rw [mem_textPlaces]
    refine exists_congr fun node => and_congr_left fun _ => ?_
    rw [Node.mem_placed_iff]
    simp
  ordered := pairwise_textPlaces (Node.pairwise_placed [] root)

theorem textParagraphs_eq (root : Node) :
    textParagraphs root =
      ((textPlaces (placed [] root)).filterMap (paragraphAround? root)).eraseDups := by
  rw [textParagraphs, TextPiece.ofRoot_eq, List.filterMap_map]
  rfl

theorem areOwners_textParagraphs (root : Node) :
    AreOwners root (textPlaces (placed [] root)) (textParagraphs root) where
  mem_iff paragraph := by rw [textParagraphs_eq, List.mem_eraseDups, List.mem_filterMap]
  nodup := nodup_eraseDups _
  ordered := by
    rw [textParagraphs_eq]
    exact pairwise_eraseDups_filterMap (areTextElements_textPlaces root).ordered

/-! ### Texts of a part -/

/-- The texts of pieces with one owner are those of the text elements that it owns. -/
theorem texts_filter_owner (root : Node) (places : List Path) (owner : Option Path) :
    ((places.map (pieceAt root)).filter fun piece => piece.owner == owner).map (·.text) =
      (ownedBy root places owner).map (textAt root) := by
  rw [List.filter_map, List.map_map]
  rfl

theorem paragraphTexts_eq_listed (root : Node) :
    paragraphTexts root =
      (textParagraphs root).map (fun paragraph =>
          String.join ((ownedBy root (textPlaces (placed [] root)) (some paragraph)).map
            (textAt root))) ++
        (ownedBy root (textPlaces (placed [] root)) none).map (textAt root) := by
  have joined (paragraph : Path) : TextPiece.joinedText (TextPiece.ofRoot root) paragraph =
      String.join ((ownedBy root (textPlaces (placed [] root)) (some paragraph)).map
        (textAt root)) := by
    rw [TextPiece.joinedText, TextPiece.ofRoot_eq, texts_filter_owner]
  have loose : looseTexts root =
      (ownedBy root (textPlaces (placed [] root)) none).map (textAt root) := by
    rw [← texts_filter_owner, ← TextPiece.ofRoot_eq, looseTexts]
    simp only [Option.beq_none]
  rw [paragraphTexts_eq, loose, List.map_congr_left fun paragraph _ => joined paragraph]

/-- Every text element belongs to one paragraph of the list or to none. -/
theorem ownedBy_perm {elements paragraphs : List Path} (owners : AreOwners root elements paragraphs) :
    (paragraphs.flatMap (fun paragraph => ownedBy root elements (some paragraph)) ++
      ownedBy root elements none).Perm elements := by
  have covered : ∀ place ∈ elements,
      paragraphAround? root place ∈ paragraphs.map some ++ [none] := by
    intro place placeMem
    cases around : paragraphAround? root place with
    | none => simp
    | some paragraph =>
        have owns := (owners.mem_iff paragraph).mpr ⟨place, placeMem, around⟩
        simp [owns]
  have nodup : (paragraphs.map some ++ [none]).Nodup := by
    rw [List.nodup_append]
    refine ⟨owners.nodup.map fun _ _ => Option.some.inj, List.nodup_singleton _, ?_⟩
    simp
  have parted := flatMap_filter_key_perm nodup covered
  rwa [List.flatMap_append, List.flatMap_map, List.flatMap_singleton] at parted

/-! ### What a paragraph owns, seen from inside -/

/-- The paragraph around a place is on the way to it. -/
theorem paragraphAround?_eq_some {paragraph : Path}
    (around : paragraphAround? root place = some paragraph) :
    (∃ attributes children,
      root.at? paragraph = some (.element (named "p") attributes children)) ∧
      ∃ inner position, place = inner ++ position :: paragraph := by
  induction place with
  | nil => cases around
  | cons position above ih =>
      rw [paragraphAround?] at around
      split at around
      · next isParagraph =>
          obtain rfl := Option.some.inj around
          obtain ⟨node, found, isNamed⟩ := (Option.any_eq_true _ _).mp isParagraph
          cases node with
          | text content => cases isNamed
          | aside => cases isNamed
          | element name attributes children =>
              obtain rfl : name = named "p" := beq_iff_eq.mp isNamed
              exact ⟨⟨attributes, children, found⟩, [], position, rfl⟩
      · obtain ⟨isParagraph, inner, index, rfl⟩ := ih around
        exact ⟨isParagraph, position :: inner, index, rfl⟩

/-- What is inside of a node belongs where the node does or to a paragraph inside of the node. -/
theorem paragraphAround?_append (root : Node) (inner place : Path) :
    paragraphAround? root (inner ++ place) = paragraphAround? root place ∨
      ∃ between, paragraphAround? root (inner ++ place) = some (between ++ place) := by
  induction inner with
  | nil => exact .inl rfl
  | cons position inner ih =>
      rw [List.cons_append, paragraphAround?]
      split
      · exact .inr ⟨inner, rfl⟩
      · exact ih

/-- What a paragraph holds does not belong outside of it. -/
theorem paragraphAround?_inside_ne (found : root.at? place = some node)
    (isParagraph : node.isNamed (named "p") = true) (inner : Path) (position : Nat) :
    paragraphAround? root (inner ++ position :: place) ≠ paragraphAround? root place := by
  intro same
  have here : paragraphAround? root (position :: place) = some place := by
    rw [paragraphAround?_cons found, if_pos isParagraph]
  obtain ⟨between, inside⟩ :
      ∃ between, paragraphAround? root (inner ++ position :: place) = some (between ++ place) := by
    rcases paragraphAround?_append root inner (position :: place) with direct | ⟨between, deeper⟩
    · exact ⟨[], direct.trans here⟩
    · exact ⟨between ++ [position], by rw [deeper, List.append_assoc]; rfl⟩
  obtain ⟨_, way, index, place_eq⟩ := paragraphAround?_eq_some (same.symm.trans inside)
  have lengths := congrArg List.length place_eq
  simp only [List.length_append, List.length_cons] at lengths
  omega

theorem ownedBy_append (root : Node) (places others : List Path) (owner : Option Path) :
    ownedBy root (places ++ others) owner = ownedBy root places owner ++ ownedBy root others owner :=
  List.filter_append ..

mutual

/-- Of the text elements in a node, those that belong where the node does are found without entering
a paragraph. -/
theorem ownedBy_placed (root : Node) (place : Path) (node : Node)
    (found : root.at? place = some node) :
    (ownedBy root (textPlaces (placed place node)) (paragraphAround? root place)).map (textAt root) =
      ownTexts node := by
  cases node with
  | text content => rfl
  | aside => rfl
  | element name attributes children =>
      have named_eq (own : Xml.Name) :
          (Node.element name attributes children).isNamed own = (name == own) := rfl
      have here : textAt root place = Node.textBefore children := by
        rw [textAt, found]
        rfl
      rw [placed, textPlaces_cons, named_eq, ownTexts]
      -- a paragraph keeps what is inside of it; from any other element it is passed on
      by_cases isParagraph : (name == named "p") = true
      · have notText : ¬(name == named "t") = true := by
          rw [beq_iff_eq.mp isParagraph]
          decide
        rw [if_pos isParagraph, if_neg notText, List.map_eq_nil_iff, ownedBy, List.filter_eq_nil_iff]
        intro inside insideMem
        rw [beq_iff_eq]
        obtain ⟨entry, entryMem, rfl⟩ := List.mem_map.mp insideMem
        obtain ⟨index, _, inner, _, way, _⟩ :=
          (Node.mem_placedAll_iff place 0 children _ _).mp (List.mem_filter.mp entryMem).1
        rw [way]
        exact paragraphAround?_inside_ne found isParagraph inner _
      · have below := ownedBy_placedAll root place _ found 0 children rfl
        rw [paragraphAround?_cons found, named_eq, if_neg isParagraph] at below
        rw [if_neg isParagraph]
        split
        · rw [ownedBy, List.filter_cons, if_pos (beq_self_eq_true _), List.map_cons, here]
          exact congrArg _ below
        · exact below

theorem ownedBy_placedAll (root : Node) (parent : Path) (node : Node)
    (found : root.at? parent = some node) (position : Nat) (nodes : List Node)
    (rest : node.children.drop position = nodes) :
    (ownedBy root (textPlaces (placedAll parent position nodes))
      (paragraphAround? root (position :: parent))).map (textAt root) = ownTextsAll nodes := by
  cases nodes with
  | nil => rfl
  | cons child others =>
      obtain ⟨at_child, behind⟩ := Node.at?_child found rest
      have later := ownedBy_placedAll root parent node found (position + 1) others behind
      rw [paragraphAround?_sibling root parent (position + 1) position] at later
      rw [placedAll, textPlaces_append, ownedBy_append, List.map_append,
        ownedBy_placed root _ child at_child, later, ownTextsAll]

end

/-- What a paragraph owns is inside of it. -/
theorem ownedBy_eq_inside {paragraph : Path} (found : root.at? paragraph = some node) :
    ownedBy root (textPlaces (placed [] root)) (some paragraph) =
      ownedBy root (textPlaces (placedAll paragraph 0 node.children)) (some paragraph) := by
  refine Node.eq_of_pairwise_before
    ((areTextElements_textPlaces root).ordered.filter _)
    ((pairwise_textPlaces (Node.pairwise_placedAll paragraph 0 _)).filter _) fun place => ?_
  rw [ownedBy, ownedBy, List.mem_filter, List.mem_filter]
  refine and_congr_left fun owned => ?_
  obtain ⟨_, inner, position, rfl⟩ := paragraphAround?_eq_some (beq_iff_eq.mp owned)
  rw [mem_textPlaces, mem_textPlaces]
  refine exists_congr fun inside => and_congr_left fun _ => ?_
  rw [Node.mem_placed_iff, Node.mem_placedAll_iff]
  constructor
  · rintro ⟨way, way_eq, at_way⟩
    rw [List.append_nil] at way_eq
    subst way_eq
    rw [Node.at?_append, Node.at?, found, Option.bind_some] at at_way
    obtain ⟨child, child_eq, at_inner⟩ := Option.bind_eq_some_iff.mp at_way
    exact ⟨position, child, inner, child_eq, by rw [Nat.zero_add], at_inner⟩
  · rintro ⟨index, child, way, child_eq, way_eq, at_way⟩
    refine ⟨inner ++ position :: paragraph, (List.append_nil _).symm, ?_⟩
    rw [way_eq, Node.at?_append, Node.at?, found, Option.bind_some, Nat.zero_add, child_eq]
    exact at_way

/-- What a paragraph owns is found in it without entering a paragraph. -/
theorem texts_ownedBy_paragraph {paragraph : Path} {attributes : List Xml.Attribute}
    {children : List Node}
    (found : root.at? paragraph = some (.element (named "p") attributes children)) :
    (ownedBy root (textPlaces (placed [] root)) (some paragraph)).map (textAt root) =
      ownTextsAll children := by
  have isParagraph : (Node.element (named "p") attributes children).isNamed (named "p") = true :=
    beq_self_eq_true _
  have inside := ownedBy_placedAll root paragraph _ found 0 children rfl
  rw [paragraphAround?_cons found, if_pos isParagraph] at inside
  rw [ownedBy_eq_inside found]
  exact inside

theorem texts_ownedBy_of_mem {paragraph : Path} (owns : paragraph ∈ textParagraphs root) :
    ∃ attributes children,
      root.at? paragraph = some (.element (named "p") attributes children) ∧
        (ownedBy root (textPlaces (placed [] root)) (some paragraph)).map (textAt root) =
          ownTextsAll children := by
  obtain ⟨place, _, around⟩ := ((areOwners_textParagraphs root).mem_iff paragraph).mp owns
  obtain ⟨⟨attributes, children, found⟩, -⟩ := paragraphAround?_eq_some around
  exact ⟨attributes, children, found, texts_ownedBy_paragraph found⟩

/-- Every text element is read once, in the paragraph it belongs to.  The texts of a part are one for
each paragraph that is the nearest around some text element, in the order of the first of these, and
then the text elements outside of paragraphs one by one.  A paragraph reads what it holds without
entering the paragraphs in it. -/
theorem each_text_element_is_read_once (root : Node) :
    ∃ elements paragraphs, AreTextElements root elements ∧ AreOwners root elements paragraphs ∧
      paragraphTexts root =
        paragraphs.map (fun paragraph =>
            String.join ((ownedBy root elements (some paragraph)).map (textAt root))) ++
          (ownedBy root elements none).map (textAt root) ∧
      (paragraphs.flatMap (fun paragraph => ownedBy root elements (some paragraph)) ++
        ownedBy root elements none).Perm elements ∧
      (∀ paragraph ∈ paragraphs, ∃ attributes children,
        root.at? paragraph = some (.element (named "p") attributes children) ∧
          (ownedBy root elements (some paragraph)).map (textAt root) = ownTextsAll children) ∧
      (ownedBy root elements none).map (textAt root) = ownTexts root :=
  ⟨textPlaces (placed [] root), textParagraphs root, areTextElements_textPlaces root,
    areOwners_textParagraphs root, paragraphTexts_eq_listed root,
    ownedBy_perm (areOwners_textParagraphs root), fun _ => texts_ownedBy_of_mem,
    ownedBy_placed root [] root rfl⟩

example :
    paragraphTexts (.element (named "p") []
      [.element (named "t") [] [.text "be"],
        .element (named "p") [] [.element (named "t") [] [.text "in"]],
        .element (named "t") [] [.text "fore"]]) = ["before", "in"] := by
  decide

end Stencil.Word
