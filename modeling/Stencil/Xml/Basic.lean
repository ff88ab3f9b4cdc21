/-!
# Markup trees

The tree of a markup document: elements with expanded names, attributes and
children, and text.  Comments, processing instructions and references that stay
unresolved are kept as nodes that only part the text around them.
-/

namespace Stencil.Xml

/-- An expanded name: a namespace, empty for none, and the name within it. -/
structure Name where
  space : String
  localName : String
  deriving DecidableEq, Repr, Inhabited

/-- An attribute of an element. -/
structure Attribute where
  name : Name
  value : String
  deriving DecidableEq, Repr, Inhabited

/-- A node of a markup tree. -/
inductive Node where
  | element (name : Name) (attributes : List Attribute) (children : List Node)
  | text (content : String)
  | aside
  deriving Repr, Inhabited

/-- The address by which a namespace is named. -/
def address (host path : String) : String :=
  "http://" ++ host ++ "/" ++ path

namespace Node

/-- Tells whether a node is an element of a name. -/
def isNamed (name : Name) : Node → Bool
  | element own _ _ => own == name
  | _ => false

/-- The children of a node. -/
def children : Node → List Node
  | element _ _ children => children
  | _ => []

/-- The text that stands before the first child of another kind. -/
def textBefore : List Node → String
  | text content :: rest => content ++ textBefore rest
  | _ => ""

/-- The text of an element before its first element, comment or instruction. -/
def leadingText (node : Node) : String :=
  textBefore node.children

/-- The children of a name. -/
def childrenNamed (node : Node) (name : Name) : List Node :=
  node.children.filter (isNamed name)

/-- The first child of a name. -/
def child? (node : Node) (name : Name) : Option Node :=
  node.children.find? (isNamed name)

/-- The attributes of a node. -/
def attributes : Node → List Attribute
  | element _ attributes _ => attributes
  | _ => []

/-- The value of an attribute. -/
def attribute? (node : Node) (name : Name) : Option String :=
  (node.attributes.find? (·.name == name)).map (·.value)

end Node

/-- Tells whether a character may stand in a document. -/
def isAllowed (c : Char) : Bool :=
  let n := c.toNat
  n == 9 || n == 10 || n == 13 || (0x20 ≤ n && n != 0xFFFE && n != 0xFFFF)

/-- The white space of markup. -/
def isSpace (c : Char) : Bool :=
  c == ' ' || c == '\t' || c == '\n' || c == '\r'

/-- Skips white space. -/
def skipSpace (cs : List Char) : List Char :=
  cs.dropWhile isSpace

/-- Skips white space of which there must be some. -/
def needSpace : List Char → Option (List Char)
  | [] => none
  | c :: rest => if isSpace c then some (skipSpace rest) else none

/-- The characters besides ASCII letters with which a name may begin. -/
def nameStartRanges : List (Nat × Nat) :=
  [(0x5F, 0x5F), (0xC0, 0xD6), (0xD8, 0xF6), (0xF8, 0x2FF), (0x370, 0x37D), (0x37F, 0x1FFF),
    (0x200C, 0x200D), (0x2070, 0x218F), (0x2C00, 0x2FEF), (0x3001, 0xD7FF), (0xF900, 0xFDCF),
    (0xFDF0, 0xFFFD), (0x10000, 0xEFFFF)]

/-- The characters besides ASCII digits that a name may hold but not begin with. -/
def nameInnerRanges : List (Nat × Nat) :=
  [(0x2D, 0x2E), (0xB7, 0xB7), (0x300, 0x36F), (0x203F, 0x2040)]

/-- Tells whether a code point lies in one of some ranges. -/
def isWithin (ranges : List (Nat × Nat)) (n : Nat) : Bool :=
  ranges.any fun (first, last) => first ≤ n && n ≤ last

/-- Tells whether a name without colon may begin with a character. -/
def isNameStart (c : Char) : Bool :=
  ('a' ≤ c && c ≤ 'z') || ('A' ≤ c && c ≤ 'Z') || isWithin nameStartRanges c.toNat

/-- Tells whether a name without colon may hold a character. -/
def isNameChar (c : Char) : Bool :=
  isNameStart c || ('0' ≤ c && c ≤ '9') || isWithin nameInnerRanges c.toNat

/-- Reads a name without colon. -/
def readName : List Char → Option (List Char × List Char)
  | [] => none
  | c :: rest =>
    if isNameStart c then some (c :: rest.takeWhile isNameChar, rest.dropWhile isNameChar) else none

/-- A name as it is written: what stands before the colon, empty for none, and
the rest. -/
structure QName where
  qualifier : List Char
  localPart : List Char
  deriving DecidableEq, Repr, Inhabited

/-- Reads a name that may have a colon in it. -/
def readQName (cs : List Char) : Option (QName × List Char) := do
  let (first, rest) ← readName cs
  match rest with
  | ':' :: rest =>
    let (second, rest) ← readName rest
    if rest.head? == some ':' then none
    return (⟨first, second⟩, rest)
  | rest => return (⟨[], first⟩, rest)

/-- The text before the first occurrence of a mark, last character first, and the
text after it. -/
def cutFrom (mark : List Char) (seen : List Char) : List Char → Option (List Char × List Char)
  | [] => none
  | c :: rest =>
    if mark.isPrefixOf (c :: rest) then some (seen, (c :: rest).drop mark.length)
    else cutFrom mark (c :: seen) rest

/-- The text before the first occurrence of a mark and the text after it. -/
def cutAfter (mark cs : List Char) : Option (List Char × List Char) :=
  (cutFrom mark [] cs).map fun (seen, rest) => (seen.reverse, rest)

/-- The rest of a text that begins with a word. -/
def afterWord (word : String) (cs : List Char) : Option (List Char) :=
  if word.toList.isPrefixOf cs then some (cs.drop word.length) else none

/-- The text between quotes and the text after them. -/
def readQuoted : List Char → Option (List Char × List Char)
  | [] => none
  | c :: rest => if c == '"' || c == '\'' then cutAfter [c] rest else none

end Stencil.Xml
