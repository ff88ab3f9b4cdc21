import Stencil.Xml.Basic

/-!
# The vocabulary of word processing markup

The names of the elements and attributes by which body, headers and footers of a
template are written.
-/

namespace Stencil.Word

/-- A namespace of the document format. -/
def formatSpace (path : String) : String :=
  Xml.address "schemas.openxmlformats.org" path

/-- The namespace of word processing markup. -/
def space : String := formatSpace "wordprocessingml/2006/main"

/-- The namespace of references to other parts. -/
def relationSpace : String := formatSpace "officeDocument/2006/relationships"

/-- The namespace of the tables that list the relations of a part. -/
def relationTableSpace : String := formatSpace "package/2006/relationships"

/-- The namespace of the table of content types. -/
def contentTypeSpace : String := formatSpace "package/2006/content-types"

/-- A name of word processing markup. -/
def named (localName : String) : Xml.Name := ⟨space, localName⟩

/-- A name without namespace. -/
def bare (localName : String) : Xml.Name := ⟨"", localName⟩

end Stencil.Word
