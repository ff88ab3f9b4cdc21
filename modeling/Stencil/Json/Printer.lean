import Stencil.Json.Basic
import Stencil.Numeral.Decimal
import Stencil.Text.Quoted

/-!
# Writing JSON values

A value has three written forms.  `plain` is the text that is put into a filled
document or into an id: a text stands for itself, and lists and objects show
their parts by `shown`, where texts stand between quotes.  `pretty` is JSON over
several lines, two blanks deeper at each level, for schema files.
-/

namespace Stencil.Json

mutual

/-- The form of a value inside a list or a message. -/
def shown : Json → String
  | .null => "None"
  | .bool true => "True"
  | .bool false => "False"
  | .int n => toString n
  | .real x => plainDecimal.text x
  | .str s => Text.quoted s
  | .arr items => "[" ++ shownItems items ++ "]"
  | .obj fields => "\x7b" ++ shownFields fields ++ "\x7d"

/-- The items of a list with commas between them. -/
def shownItems : List Json → String
  | [] => ""
  | [item] => shown item
  | item :: rest => shown item ++ ", " ++ shownItems rest

/-- The fields of an object with commas between them. -/
def shownFields : List (String × Json) → String
  | [] => ""
  | [(name, value)] => Text.quoted name ++ ": " ++ shown value
  | (name, value) :: rest => Text.quoted name ++ ": " ++ shown value ++ ", " ++ shownFields rest

end

/-- The text of a value, as it is put into a document. -/
def plain : Json → String
  | .str s => s
  | value => shown value

/-- The text of a value that a document is filled with; null leaves nothing. -/
def fillText : Json → String
  | .null => ""
  | value => plain value

/-- One character inside a JSON text. -/
def writtenChar (c : Char) : List Char :=
  if c == '"' || c == '\\' then ['\\', c]
  else if c == '\n' then ['\\', 'n']
  else if c == '\r' then ['\\', 'r']
  else if c == '\t' then ['\\', 't']
  else if c == '\x08' then ['\\', 'b']
  else if c == '\x0c' then ['\\', 'f']
  else if c.toNat < 32 then '\\' :: 'u' :: Text.hexDigits 4 c.toNat
  else [c]

/-- A JSON text with its quotes. -/
def writtenText (s : String) : String :=
  "\"" ++ String.ofList (s.toList.flatMap writtenChar) ++ "\""

/-- The JSON number of a floating number. -/
def writtenReal : Binary64 → String
  | .undefined => "NaN"
  | .infinite negative => if negative then "-Infinity" else "Infinity"
  | x => plainDecimal.text x

/-- A line end and the blanks of a level. -/
def lineAt (level : Nat) : String :=
  "\n" ++ String.ofList (List.replicate (2 * level) ' ')

mutual

/-- JSON text over several lines, for a value at the given level. -/
def prettyAt (level : Nat) : Json → String
  | .null => "null"
  | .bool true => "true"
  | .bool false => "false"
  | .int n => toString n
  | .real x => writtenReal x
  | .str s => writtenText s
  | .arr [] => "[]"
  | .arr (item :: rest) =>
    "[" ++ prettyItems (level + 1) (item :: rest) ++ lineAt level ++ "]"
  | .obj [] => "\x7b\x7d"
  | .obj (entry :: rest) =>
    "\x7b" ++ prettyFields (level + 1) (entry :: rest) ++ lineAt level ++ "\x7d"

/-- The items of a list, each on a line of its own. -/
def prettyItems (level : Nat) : List Json → String
  | [] => ""
  | [item] => lineAt level ++ prettyAt level item
  | item :: rest => lineAt level ++ prettyAt level item ++ "," ++ prettyItems level rest

/-- The fields of an object, each on a line of its own. -/
def prettyFields (level : Nat) : List (String × Json) → String
  | [] => ""
  | [(name, value)] => lineAt level ++ writtenText name ++ ": " ++ prettyAt level value
  | (name, value) :: rest =>
    lineAt level ++ writtenText name ++ ": " ++ prettyAt level value ++ ","
      ++ prettyFields level rest

end

/-- JSON text over several lines. -/
def pretty (value : Json) : String :=
  prettyAt 0 value

end Stencil.Json
