import Stencil.Text.Digit
import Stencil.Xml.Basic

/-!
# References and entities

A reference stands for a character by its code, for one of the five characters
that markup uses itself, or for an entity that the document declares.  An entity
stands for a text of its own or for one outside of the document, which is never
fetched.  While an entity is expanded, a reference to it is an error.
-/

namespace Stencil.Xml

/-- What follows an ampersand. -/
inductive Reference where
  | char (value : Char)
  | entity (name : List Char)
  deriving DecidableEq, Repr

/-- What an entity stands for. -/
inductive Entity where
  | internal (text : List Char)
  | external
  | expanding
  deriving DecidableEq, Repr

/-- The entities that a document declares. -/
abbrev Entities := List (List Char × Entity)

/-- What to do with references to entities. -/
inductive EntityUse where
  /-- Put the text of an entity in place of the reference. -/
  | resolve
  /-- Leave references in the tree, also those to entities that are not declared. -/
  | keep
  deriving DecidableEq, Repr

namespace Reference

/-- The character that a reference writes for the markup's own characters. -/
def predefined? (name : List Char) : Option Char :=
  [("lt".toList, '<'), ("gt".toList, '>'), ("amp".toList, '&'), ("apos".toList, '\''),
    ("quot".toList, '"')].lookup name

/-- The character with a code, when a document may hold it. -/
def ofCode? (code : Nat) : Option Char :=
  if h : code.isValidChar then
    let c := Char.ofNatAux code h
    if isAllowed c then some c else none
  else none

/-- The value of digits in a base. -/
def codeOf (base : Nat) (digits : List Char) : Nat :=
  digits.foldl (fun code c => base * code + (Text.hexValue? c).getD 0) 0

/-- Reads the code of a character, its digits up to a semicolon. -/
def readCode (base : Nat) (isDigit : Char → Bool) (cs : List Char) :
    Option (Reference × List Char) := do
  let digits := cs.takeWhile isDigit
  if digits.isEmpty then none
  match cs.dropWhile isDigit with
  | ';' :: rest => return (.char (← ofCode? (codeOf base digits)), rest)
  | _ => none

/-- Reads a reference after its ampersand. -/
def read (cs : List Char) : Option (Reference × List Char) := do
  match cs with
  | '#' :: 'x' :: rest => readCode 16 (fun c => (Text.hexValue? c).isSome) rest
  | '#' :: rest => readCode 10 Text.isAsciiDigit rest
  | _ =>
    match ← readName cs with
    | (name, ';' :: rest) =>
      return ((match predefined? name with | some c => .char c | none => .entity name), rest)
    | _ => none

end Reference

namespace Entities

/-- The entities while one of them is expanded. -/
def whileExpanding (entities : Entities) (name : List Char) : Entities :=
  (name, .expanding) :: entities

/-- The number of steps that suffice to expand a text. -/
def stepsFor (entities : Entities) (text : List Char) : Nat :=
  entities.foldl
    (fun steps (_, entity) =>
      match entity with
      | .internal text => steps + text.length + 1
      | _ => steps + 1)
    (text.length + 1)

/-- Expands the value of an attribute behind what was read of it already, the last
character first: white space becomes blanks and references are resolved.  No markup
may come out of it.  The allowance is the number of characters that entities may
still add. -/
def expandValue (use : EntityUse) : (fuel : Nat) → Entities → (seen : List Char) →
    (allowance : Nat) → List Char → Option (List Char × Nat)
  | 0, _, _, _, _ => none
  | _ + 1, _, seen, allowance, [] => some (seen, allowance)
  | fuel + 1, entities, seen, allowance, '&' :: rest =>
    match Reference.read rest with
    | none => none
    | some (.char c, rest) => expandValue use fuel entities (c :: seen) allowance rest
    | some (.entity name, rest) =>
      match entities.lookup name, use with
      | some (.internal text), _ => do
        if allowance < text.length then none
        let (seen, allowance) ←
          expandValue use fuel (entities.whileExpanding name) seen (allowance - text.length) text
        expandValue use fuel entities seen allowance rest
      | none, .keep => expandValue use fuel entities seen allowance rest
      | _, _ => none
  | fuel + 1, entities, seen, allowance, c :: rest =>
    if c == '<' then none
    else expandValue use fuel entities ((if isSpace c then ' ' else c) :: seen) allowance rest

/-- The values of attributes, and what is left of the allowance. -/
def attributeValues {α : Type} (use : EntityUse) (entities : Entities) :
    (allowance : Nat) → List (α × List Char) → Option (List (α × List Char) × Nat)
  | allowance, [] => some ([], allowance)
  | allowance, (name, text) :: rest => do
    let (value, allowance) ← expandValue use (entities.stepsFor text) entities [] allowance text
    let (values, allowance) ← attributeValues use entities allowance rest
    return ((name, value.reverse) :: values, allowance)

end Entities

end Stencil.Xml
