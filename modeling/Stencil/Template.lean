import Stencil.Word.Filling
import Stencil.Word.Reading
import Stencil.Word.Writing

/-!
# Templates

Filling a template as a whole: the package is opened and read as a document, and
the texts are filled into it.
-/

namespace Stencil

/-- Why a template cannot be filled. -/
inductive FillError where
  | opening (error : OpenError)
  | reading (error : Word.ReadError)
  /-- A text has characters that a document cannot hold. -/
  | unwritable
  deriving DecidableEq, Repr

namespace Template

/-- Reads the document of an open package. -/
def documentOf (opened : Except OpenError OpenPackage) : Except FillError Word.Document :=
  match opened with
  | .error error => .error (.opening error)
  | .ok opened =>
    match Word.Document.ofPackage opened with
    | .error error => .error (.reading error)
    | .ok document => .ok document

/-- The document that a package holds. -/
def read (package : Package) : Except FillError Word.Document :=
  documentOf (OpenPackage.ofPackage package)

/-- A way to read the document of a template. -/
abbrev Reader := Source → Except FillError Word.Document

/-- Opens the package of a template and reads its document. -/
def readSource : Reader := fun source =>
  documentOf (OpenPackage.ofSource source)

/-- Fills texts into the tokens of a template that is read in some way. -/
def fillThrough (reader : Reader) (source : Source) (values : Token.Values) :
    Except FillError Word.Filled := do
  match (← reader source).fill? values with
  | some filled => return filled
  | none => throw .unwritable

/-- Fills texts into the tokens of a template. -/
def fill (source : Source) (values : Token.Values) : Except FillError Word.Filled :=
  fillThrough readSource source values

end Template

end Stencil
