import Stencil.Xml.Declaration
import Stencil.Xml.Event

/-!
# Reading documents

`Node.ofEvents?` builds the tree of a list of events: tags must match, names must
belong to namespaces that are bound, and no element may have two attributes of
one name.  `Node.parse?` reads the bytes of a whole document, which is a single
element with comments, instructions and white space around it, behind an optional
declaration and document type.
-/

namespace Stencil.Xml

/-- The namespaces bound to qualifiers, the innermost first. -/
abbrev Scope := List (List Char × String)

namespace Scope

/-- The namespace of the markup itself. -/
def markupSpace : String := address "www.w3.org" "XML/1998/namespace"

/-- The namespace of namespace declarations. -/
def declarationSpace : String := address "www.w3.org" "2000/xmlns/"

/-- The bindings outside of the root element. -/
def outermost : Scope := [("xml".toList, markupSpace)]

/-- Tells whether a character may stand in the address of a namespace. -/
def isAddressChar (c : Char) : Bool :=
  Text.isLetter c || Text.isAsciiDigit c || "-._~:/?#@!$&'()*+,;=%".toList.contains c

/-- Tells whether a text can name a namespace. -/
def isAddress (text : List Char) : Bool :=
  text.all isAddressChar && String.ofList text != declarationSpace

/-- Binds the namespace of an attribute that declares one. -/
def bind (scope : Scope) (name : QName) (value : List Char) : Option Scope :=
  let space := String.ofList value
  if name == ⟨[], "xmlns".toList⟩ then
    if isAddress value && space != markupSpace then some (([], space) :: scope) else none
  else if name.qualifier == "xmlns".toList then
    if name.localPart == "xml".toList then
      if space == markupSpace then some scope else none
    else if name.localPart == "xmlns".toList then none
    else if isAddress value && !value.isEmpty && space != markupSpace then
      some ((name.localPart, space) :: scope)
    else none
  else some scope

/-- Tells whether an attribute declares a namespace. -/
def isDeclaration (name : QName) : Bool :=
  name == ⟨[], "xmlns".toList⟩ || name.qualifier == "xmlns".toList

/-- The expanded name of an element. -/
def elementName? (scope : Scope) (name : QName) : Option Name :=
  match scope.lookup name.qualifier with
  | some space => some ⟨space, String.ofList name.localPart⟩
  | none => if name.qualifier.isEmpty then some ⟨"", String.ofList name.localPart⟩ else none

/-- The expanded name of an attribute; one without qualifier has no namespace. -/
def attributeName? (scope : Scope) (name : QName) : Option Name :=
  if name.qualifier.isEmpty then some ⟨"", String.ofList name.localPart⟩
  else (scope.lookup name.qualifier).map fun space => ⟨space, String.ofList name.localPart⟩

end Scope

/-- Tells whether all elements of a list differ. -/
def allDiffer {α : Type} [BEq α] : List α → Bool
  | [] => true
  | x :: rest => !rest.contains x && allDiffer rest

/-- An element that is open: its name as written, what is known of it, and its
children so far, the last one first. -/
structure Frame where
  written : QName
  name : Name
  attributes : List Attribute
  scope : Scope
  children : List Node
  deriving Repr, Inhabited

namespace Frame

/-- The number of elements that may be open around another. -/
def depthLimit : Nat := 256

/-- Opens an element within a scope. -/
def start? (scope : Scope) (written : QName) (attributes : List (QName × List Char)) :
    Option Frame := do
  if !allDiffer (attributes.map (·.1)) then none
  let scope ← attributes.foldlM (fun scope (name, value) => scope.bind name value) scope
  let name ← scope.elementName? written
  let plain := attributes.filter fun (name, _) => !Scope.isDeclaration name
  let attributes ← plain.mapM fun (name, value) => do
    return (⟨← scope.attributeName? name, String.ofList value⟩ : Attribute)
  if !allDiffer (attributes.map (·.name)) then none
  return { written, name, attributes, scope, children := [] }

/-- Adds a child. -/
def push (frame : Frame) (child : Node) : Frame :=
  { frame with children := child :: frame.children }

/-- The element of a frame. -/
def finish (frame : Frame) : Node :=
  .element frame.name frame.attributes frame.children.reverse

end Frame

namespace Node

/-- Builds a tree from events inside of open elements, the innermost first. -/
def build : List Frame → List Event → Option Node
  | _, [] => none
  | frames, .start name attributes :: rest =>
    if Frame.depthLimit < frames.length then none
    else
      match Frame.start? ((frames.head?.map (·.scope)).getD Scope.outermost) name attributes with
      | some frame => build (frame :: frames) rest
      | none => none
  | frame :: frames, .finish name :: rest =>
    if name != frame.written then none
    else
      match frames, rest with
      | [], [] => some frame.finish
      | outer :: frames, rest => build (outer.push frame.finish :: frames) rest
      | [], _ => none
  | frame :: frames, .text content :: rest =>
    build (frame.push (.text (String.ofList content)) :: frames) rest
  | frame :: frames, .aside :: rest => build (frame.push .aside :: frames) rest
  | [], _ => none

/-- The tree of a list of events. -/
def ofEvents? (events : List Event) : Option Node :=
  build [] events

/-- Skips white space, comments and instructions. -/
def skipAside : (fuel : Nat) → List Char → Option (List Char)
  | 0, _ => none
  | fuel + 1, cs =>
    match skipSpace cs with
    | '<' :: '?' :: rest => do skipAside fuel (← Doctype.skipInstruction rest)
    | '<' :: '!' :: '-' :: '-' :: rest => do skipAside fuel (← Doctype.skipComment rest)
    | rest => some rest

/-- The number of characters that the entities of a document may add. -/
def allowanceFor (size : Nat) : Nat :=
  max 1000000 (5 * size)

/-- Reads the document type declaration, if there is one. -/
def readDoctype (cs : List Char) : Option (Doctype × List Char) :=
  match afterWord "<!DOCTYPE" cs with
  | some rest => Doctype.read rest
  | none => some ({}, cs)

/-- Tells whether a text begins with a start tag. -/
def beginsElement : List Char → Bool
  | '<' :: c :: _ => isNameStart c
  | _ => false

/-- Reads a document from its characters. -/
def ofChars? (use : EntityUse) (cs : List Char) : Option Node := do
  let size := cs.length
  let (_, rest) ← Declaration.read cs
  let (doctype, rest) ← readDoctype (← skipAside (size + 1) rest)
  let rest ← skipAside (size + 1) rest
  if !beginsElement rest then none
  let (scan, rest) ← Scan.content use (doctype.entities.stepsFor cs) doctype.entities
    { allowance := allowanceFor size } rest
  if scan.depth != 0 || !(← skipAside (size + 1) rest).isEmpty then none
  ofEvents? scan.events.reverse

/-- Reads a document from its bytes. -/
def parse? (use : EntityUse) (bytes : Bytes) : Option Node := do
  let cs := Text.unifyLineEnds (← Encoding.decode? bytes)
  if cs.all isAllowed then ofChars? use cs else none

end Node

end Stencil.Xml
