import Stencil.Package.Archive
import Stencil.Text.Digit

/-!
# Text parts

The text parts of a template are its body, its headers and its footers.  They are
read in this order, headers and footers by their numbers and otherwise as they
are listed; a part without number counts as zero.
-/

namespace Stencil

/-- Why a template cannot be used. -/
inductive TemplateError where
  /-- There is no file at the path. -/
  | fileMissing (path : String)
  /-- The bytes form no archive. -/
  | notPackage
  /-- The archive lists no text part. -/
  | noParts
  /-- No text part is well-formed markup. -/
  | noneReadable
  /-- The bytes could not be read at all. -/
  | unreadable (reason : String)
  deriving DecidableEq, Repr

/-- The text of a template error. -/
def TemplateError.message : TemplateError → String
  | .fileMissing path => "Template file not found: " ++ path
  | .notPackage => "The uploaded file is not a valid Word document."
  | .noParts => "The document has no readable body, header or footer parts."
  | .noneReadable => "None of the document parts could be read as Word markup."
  | .unreadable reason => "Could not read the uploaded template: " ++ reason

/-- Why the parts of a template cannot be read. -/
inductive PartError where
  | template (error : TemplateError)
  /-- A part has a number with too many digits. -/
  | numberTooLong (digits : Nat)
  deriving DecidableEq, Repr

namespace Part

/-- The name of the body. -/
def body : String := "word/document.xml"

/-- The greatest number of digits that the number of a part may have. -/
def digitLimit : Nat := 4300

/-- The text of a part error. -/
def errorText : PartError → String
  | .template error => error.message
  | .numberTooLong digits =>
    "Exceeds the limit (" ++ toString digitLimit
      ++ " digits) for integer string conversion: value has " ++ toString digits
      ++ " digits; use sys.set_int_max_str_digits() to increase the limit"

/-- The digits in the name of a part of a kind, which is the kind's name, digits and
the extension; a line feed may follow. -/
def digits? (kind name : String) : Option (List Char) :=
  let stem := "word/".toList ++ kind.toList
  let rest := name.toList.drop stem.length
  let ending := rest.dropWhile Text.isDecimal
  if stem.isPrefixOf name.toList && (ending == ".xml".toList || ending == ".xml\n".toList) then
    some (rest.takeWhile Text.isDecimal)
  else none

/-- The number that digits write; no digits write zero. -/
def number (digits : List Char) : Nat :=
  (Text.decimalValue? digits).getD 0

/-- The names of the parts of a kind with their digits, as they are listed. -/
def listed (kind : String) (names : List String) : List (String × List Char) :=
  names.filterMap fun name => (digits? kind name).map fun digits => (name, digits)

/-- Puts a part behind all parts with a number that is not greater. -/
def insert (part : String × Nat) : List (String × Nat) → List (String × Nat)
  | [] => [part]
  | other :: rest =>
    if part.2 < other.2 then part :: other :: rest else other :: insert part rest

/-- Sorts parts by number, those of equal numbers as they were. -/
def sort (parts : List (String × Nat)) : List (String × Nat) :=
  parts.foldl (fun sorted part => insert part sorted) []

/-- The names of the parts of a kind in reading order. -/
def ordered (kind : String) (names : List String) : List String :=
  (sort ((listed kind names).map fun (name, digits) => (name, number digits))).map (·.1)

/-- The number of digits of the first part of a kind whose number is too long. -/
def tooLong? (kind : String) (names : List String) : Option Nat :=
  ((listed kind names).map fun (_, digits) => digits.length).find? (digitLimit < ·)

/-- The number of digits of the first part among names whose number is too long. -/
def tooLongAmong? (names : List String) : Option Nat :=
  (tooLong? "header" names).or (tooLong? "footer" names)

/-- The text parts among names in reading order, each once. -/
def readingOrder (names : List String) : List String :=
  ((if names.contains body then [body] else []) ++ ordered "header" names
    ++ ordered "footer" names).eraseDups

/-- The names of the text parts of an archive. -/
def namesOf (archive : Archive) : List String :=
  readingOrder archive.names

/-- The text parts of an archive with their content. -/
def ofArchive (archive : Archive) : List (String × Bytes) :=
  (namesOf archive).map fun name => (name, archive.contentOf name)

/-- Reads the text parts of a package. -/
def ofPackage (package : Package) : Except PartError (List (String × Bytes)) :=
  match package.archive? with
  | none => .error (.template .notPackage)
  | some archive =>
    match tooLongAmong? archive.names with
    | some digits => .error (.numberTooLong digits)
    | none => .ok (ofArchive archive)

/-- Reads the text parts of a template. -/
def ofSource : Source → Except PartError (List (String × Bytes))
  | .memory package => ofPackage package
  | .file path none => .error (.template (.fileMissing path))
  | .file _ (some package) => ofPackage package

end Part

end Stencil
