import Stencil.Placeholder.Basic
import Stencil.Placeholder.Wording

/-!
# Tokens

A template asks for a value by a token, a name between single or double braces.
`scan` finds the names written in a text: from an opening brace on, all up to
the next closing brace is one token, further opening braces included.  The name
is what is left when braces and surrounding blanks are taken away, and an empty
name is no token.  A second closing brace belongs to no name, so whether it is
taken with the token makes no difference.

`Segment` is the other direction: the pieces of which a template text is
written, and their text.
-/

namespace Stencil

namespace Token

open Stencil.Text

/-- The opening brace of a token. -/
def openBrace : Char := '{'

/-- The closing brace of a token. -/
def closeBrace : Char := '}'

/-- Tells whether a character is a brace. -/
def isBrace (c : Char) : Bool :=
  c == openBrace || c == closeBrace

/-- What is left of a text without its braces and without blanks around. -/
def clean (cs : List Char) : List Char :=
  trim (cs.filter fun c => !isBrace c)

/-- The text between braces wherever a token stands.  `body` holds, last character
first, what was read since the opening brace of a token that is still open. -/
def bodies (body : Option (List Char)) : List Char → List (List Char)
  | [] => []
  | c :: rest =>
    match body with
    | none => bodies (if c == openBrace then some [] else none) rest
    | some seen =>
      if c == closeBrace then seen.reverse :: bodies none rest
      else bodies (some (c :: seen)) rest

/-- The names of the tokens in a text, in order and with repeats. -/
def scan (cs : List Char) : List (List Char) :=
  ((bodies none cs).map clean).filter fun name => !name.isEmpty

/-- The names of the tokens in a string. -/
def namesIn (text : String) : List String :=
  (scan text.toList).map String.ofList

/-- Tells whether a token names nothing: it is empty once braces and plain blanks
are taken off its ends. -/
def isEmptyName (token : String) : Bool :=
  token.toList.all fun c => isBrace c || c == ' '

/-- The placeholder of a token.  Its name is worded from the last segment of the
tag, and the segments before make up the parent tag. -/
def toPlaceholder (token : String) : Placeholder :=
  let tag := clean token.toList
  let segments := splitWhere (· == groupMark) tag
  { fullTagName := String.ofList tag
    name := String.ofList (Wording.displayName (segments.getLast?.getD []))
    tagName := String.ofList tag
    parentTagName := String.ofList (join [groupMark] segments.dropLast)
    placeholderText := String.ofList (openBrace :: tag ++ [closeBrace]) }

/-- The placeholders of tokens, in order; tokens that name nothing are left out. -/
def toPlaceholders (tokens : List String) : List Placeholder :=
  (tokens.filter fun token => !isEmptyName token).map toPlaceholder

end Token

/-- A piece of template text: plain text, or a token between single or double
braces. -/
inductive Segment where
  | literal (text : List Char)
  | token (name : List Char)
  | doubled (name : List Char)
  deriving DecidableEq, Repr

namespace Segment

/-- The text of a piece. -/
def text : Segment → List Char
  | .literal text => text
  | .token name => Token.openBrace :: name ++ [Token.closeBrace]
  | .doubled name =>
    Token.openBrace :: Token.openBrace :: name ++ [Token.closeBrace, Token.closeBrace]

/-- The text of several pieces. -/
def textOf (segments : List Segment) : List Char :=
  segments.flatMap text

end Segment

end Stencil
