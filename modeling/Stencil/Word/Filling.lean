import Stencil.Placeholder.Substitution
import Stencil.Word.Document
import Stencil.Xml.Basic

/-!
# Filling a document

Texts are filled into the tokens of every paragraph.  A token may be cut into
several runs, so a paragraph is filled as one text: it is written into the first
run, the formatting of which it keeps, and the other runs are emptied.  A
paragraph without runs cannot be written, though its tokens count as found.

Line ends of both kinds become line breaks in a run, and characters that markup
cannot hold are refused.
-/

namespace Stencil.Word

/-- The text of a run after a text was written into it. -/
def runText (text : List Char) : String :=
  String.ofList (text.map fun c => if c == '\r' then '\n' else c)

/-- Empties all runs. -/
def emptyRuns (inlines : List Inline) : List Inline :=
  inlines.map fun inline =>
    match inline with
    | .run _ => .run ""
    | .link text => .link text

/-- Writes a text into the first run and empties the others. -/
def writeInto (text : List Char) : List Inline → List Inline
  | [] => []
  | .run _ :: rest => .run (runText text) :: emptyRuns rest
  | .link shown :: rest => .link shown :: writeInto text rest

/-- Tells whether a text has a brace that could begin a token. -/
def mayHoldToken (text : List Char) : Bool :=
  text.contains Token.openBrace

/-- The text of a paragraph with its tokens replaced. -/
def filledText (values : Token.Values) (inlines : List Inline) : List Char :=
  let text := (textOf inlines).toList
  if mayHoldToken text then Token.replaceAllKeys values text else text

/-- Tells whether filling writes into a paragraph. -/
def isChanged (values : Token.Values) (inlines : List Inline) : Bool :=
  filledText values inlines != (textOf inlines).toList && inlines.any Inline.isRun

/-- Fills a paragraph once. -/
def fillOnce (values : Token.Values) (inlines : List Inline) : List Inline :=
  if isChanged values inlines then writeInto (filledText values inlines) inlines else inlines

/-- The keys found in a paragraph that is filled once. -/
def keysFoundOnce (values : Token.Values) (inlines : List Inline) : List String :=
  let text := (textOf inlines).toList
  if mayHoldToken text then Token.keysFound values text else []

/-- Tells whether what is written into a paragraph that is filled once can be held. -/
def acceptsOnce (values : Token.Values) (inlines : List Inline) : Bool :=
  !isChanged values inlines || (filledText values inlines).all Xml.isAllowed

/-- Fills a paragraph a number of times. -/
def fillTimes (values : Token.Values) : (visits : Nat) → List Inline → List Inline
  | 0, inlines => inlines
  | visits + 1, inlines => fillTimes values visits (fillOnce values inlines)

/-- The keys found in a paragraph that is filled a number of times. -/
def keysFoundTimes (values : Token.Values) : (visits : Nat) → List Inline → List String
  | 0, _ => []
  | visits + 1, inlines =>
    keysFoundOnce values inlines ++ keysFoundTimes values visits (fillOnce values inlines)

/-- Tells whether what is written into a paragraph that is filled a number of times can
be held. -/
def acceptsTimes (values : Token.Values) : (visits : Nat) → List Inline → Bool
  | 0, _ => true
  | visits + 1, inlines =>
    acceptsOnce values inlines && acceptsTimes values visits (fillOnce values inlines)

/-- A filled document and the keys that no token asked for. -/
structure Filled where
  document : Document
  unmatched : List String

/-- The text of a report on characters that a document cannot hold. -/
def unwritableText : String :=
  "All strings must be XML compatible: Unicode or ASCII, no NULL bytes or control characters"

namespace Document

/-- The keys found anywhere in a document. -/
def keysFound (document : Document) (values : Token.Values) : List String :=
  document.paragraphs.flatMap fun (visits, inlines) => keysFoundTimes values visits inlines

/-- Tells whether a document can hold all that is written into it. -/
def accepts (document : Document) (values : Token.Values) : Bool :=
  document.paragraphs.all fun (visits, inlines) => acceptsTimes values visits inlines

/-- Fills texts into the tokens of a document, unless it cannot hold them. -/
def fill? (document : Document) (values : Token.Values) : Option Filled :=
  if document.accepts values then
    let found := document.keysFound values
    some {
      document := document.mapParagraphs (fillTimes values)
      unmatched := (values.map (·.1)).filter fun key => !found.contains key }
  else none

end Document

end Stencil.Word
