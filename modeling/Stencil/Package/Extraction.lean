import Stencil.Package.Part
import Stencil.Placeholder.Token
import Stencil.Word.ParagraphText
import Stencil.Xml.Tree

/-!
# Extraction of tokens

The tokens of a template are those of its text parts, in reading order and with
repeats.  A part that is no well-formed markup has no tokens and is reported; when
there is no other part, the template cannot be used.
-/

namespace Stencil

/-- The tokens of a template and the parts that could not be read. -/
structure Extraction where
  tokens : List String := []
  failedParts : List String := []
  deriving DecidableEq, Repr, Inhabited

namespace Extraction

/-- The tokens in the tree of a part. -/
def tokensOf (root : Xml.Node) : List String :=
  (Word.paragraphTexts root).flatMap Token.namesIn

/-- The tokens in a part, when it is well-formed. -/
def tokensIn? (content : Bytes) : Option (List String) :=
  (Xml.Node.parse? .resolve content).map tokensOf

/-- What is extracted from parts, each given with its tokens if it could be read. -/
def ofRead (read : List (String × Option (List String))) : Except TemplateError Extraction :=
  if read.isEmpty then .error .noParts
  else
    let failedParts := (read.filter fun (_, tokens) => tokens.isNone).map (·.1)
    if failedParts.length == read.length then .error .noneReadable
    else .ok { tokens := (read.filterMap (·.2)).flatten, failedParts }

/-- Extracts the tokens from parts. -/
def ofParts (parts : List (String × Bytes)) : Except TemplateError Extraction :=
  ofRead (parts.map fun (name, content) => (name, tokensIn? content))

/-- Extracts the tokens from the text parts of a template. -/
def ofSource (source : Source) : Except PartError Extraction := do
  match ofParts (← Part.ofSource source) with
  | .ok extraction => return extraction
  | .error error => throw (.template error)

end Extraction

end Stencil
