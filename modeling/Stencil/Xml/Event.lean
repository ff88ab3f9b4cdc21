import Stencil.Text.Split
import Stencil.Xml.Doctype

/-!
# Markup events

The content of a document as a flat list of events: elements that start and
finish, text, and what lies aside of both.  `Scan.content` reads events until the
element that was begun first is finished.  Entities are expanded in place, each
being balanced in itself, and only up to an allowance of characters.
-/

namespace Stencil.Xml

/-- A step through the content of a document. -/
inductive Event where
  | start (name : QName) (attributes : List (QName × List Char))
  | finish (name : QName)
  | text (content : List Char)
  | aside
  deriving DecidableEq, Repr, Inhabited

/-- The attributes of a start tag up to its end, whether the element is finished
with it, and what follows. -/
def readAttributes : (fuel : Nat) → List Char →
    Option (List (QName × List Char) × Bool × List Char)
  | 0, _ => none
  | fuel + 1, cs =>
    match skipSpace cs with
    | '>' :: rest => some ([], false, rest)
    | '/' :: '>' :: rest => some ([], true, rest)
    | next => do
      if !(cs.head?.map isSpace).getD false then none
      let (name, rest) ← readQName next
      let rest ← afterWord "=" (skipSpace rest)
      let (value, rest) ← readQuoted (skipSpace rest)
      let (attributes, isFinished, rest) ← readAttributes fuel rest
      return ((name, value) :: attributes, isFinished, rest)

/-- What was read so far: the events, the last one first, the number of elements
that are open, and the number of characters that entities may still add. -/
structure Scan where
  events : List Event := []
  depth : Nat := 0
  allowance : Nat := 0
  deriving Repr, Inhabited

namespace Scan

/-- Adds an event. -/
def push (scan : Scan) (event : Event) : Scan :=
  { scan with events := event :: scan.events }

/-- Reads a start tag after its bracket. -/
def readStart (use : EntityUse) (entities : Entities) (fuel : Nat) (scan : Scan) (cs : List Char) :
    Option (Scan × List Char) := do
  let (name, rest) ← readQName cs
  let (attributes, isFinished, rest) ← readAttributes fuel rest
  let (attributes, allowance) ← entities.attributeValues use scan.allowance attributes
  let started := { scan with allowance }.push (.start name attributes)
  if isFinished then return (started.push (.finish name), rest)
  else return ({ started with depth := scan.depth + 1 }, rest)

/-- Reads an end tag after its opening. -/
def readFinish (scan : Scan) (cs : List Char) : Option (Scan × List Char) := do
  let (name, rest) ← readQName cs
  let rest ← afterWord ">" (skipSpace rest)
  return ({ scan.push (.finish name) with depth := scan.depth - 1 }, rest)

/-- Reads what begins with an angle bracket. -/
def readMarkup (use : EntityUse) (entities : Entities) (fuel : Nat) (scan : Scan) :
    List Char → Option (Scan × List Char)
  | '/' :: rest => scan.readFinish rest
  | '?' :: rest => do return (scan.push .aside, ← Doctype.skipInstruction rest)
  | '!' :: rest => do
    match afterWord "--" rest, afterWord "[CDATA[" rest with
    | some rest, _ => return (scan.push .aside, ← Doctype.skipComment rest)
    | none, some rest =>
      let (content, rest) ← cutAfter [']', ']', '>'] rest
      return (scan.push (.text content), rest)
    | none, none => none
  | rest => scan.readStart use entities fuel rest

/-- Tells whether a character is plain text of content. -/
def isPlain (c : Char) : Bool :=
  c != '<' && c != '&'

/-- Reads content until its first element is finished, or up to its end. -/
def content (use : EntityUse) : (fuel : Nat) → Entities → Scan → List Char →
    Option (Scan × List Char)
  | 0, _, _, _ => none
  | _ + 1, _, scan, [] => some (scan, [])
  | fuel + 1, entities, scan, '<' :: rest => do
    let (scan, rest) ← scan.readMarkup use entities fuel rest
    if scan.depth == 0 then return (scan, rest) else content use fuel entities scan rest
  | fuel + 1, entities, scan, '&' :: rest =>
    match Reference.read rest with
    | none => none
    | some (.char c, rest) => content use fuel entities (scan.push (.text [c])) rest
    | some (.entity name, rest) =>
      match entities.lookup name, use with
      | some (.internal text), _ => do
        if scan.allowance < text.length then none
        let inside := { scan with depth := 1, allowance := scan.allowance - text.length }
        let (inner, left) ← content use fuel (entities.whileExpanding name) inside text
        if inner.depth != 1 || !left.isEmpty then none
        let after := { scan with allowance := inner.allowance }
        match use with
        | .resolve => content use fuel entities { after with events := inner.events } rest
        | .keep => content use fuel entities (after.push .aside) rest
      | some .expanding, _ => none
      | _, .keep => content use fuel entities (scan.push .aside) rest
      | _, .resolve => none
  | fuel + 1, entities, scan, cs =>
    let plain := cs.takeWhile isPlain
    if Text.occursIn [']', ']', '>'] plain then none
    else content use fuel entities (scan.push (.text plain)) (cs.dropWhile isPlain)

end Scan

end Stencil.Xml
