import Stencil.Text.Quoted
import Stencil.Text.Utf8

/-!
# Packages

A template is a package: an archive of named entries.  A name may be listed more
than once, and then its content is that of the last entry.  An archive is given by
its entries and their content, so an entry can always be read.  Bytes that form no
archive can be handed over as well; an archive without entries is nothing but its
closing record.
-/

namespace Stencil

/-- An archive: its entries in the order in which they are listed. -/
structure Archive where
  entries : List (String × Bytes) := []
  deriving DecidableEq, Repr, Inhabited

namespace Archive

/-- The names that an archive lists. -/
def names (archive : Archive) : List String :=
  archive.entries.map (·.1)

/-- Tells whether an archive lists a name. -/
def lists (archive : Archive) (name : String) : Bool :=
  archive.names.contains name

/-- The content under a name: that of the last entry. -/
def content? (archive : Archive) (name : String) : Option Bytes :=
  archive.entries.reverse.lookup name

/-- The content under a name that is listed. -/
def contentOf (archive : Archive) (name : String) : Bytes :=
  (archive.content? name).getD []

end Archive

/-- What is handed over as a template. -/
inductive Package where
  | archive (archive : Archive)
  | raw (bytes : Bytes)
  deriving DecidableEq, Repr, Inhabited

namespace Package

/-- The bytes with which the closing record of an archive begins. -/
def closingMark : Bytes := [0x50, 0x4B, 5, 6]

/-- The number of bytes of a closing record. -/
def closingLength : Nat := 22

/-- The closing record of an archive without entries. -/
def emptyRecord : Bytes :=
  closingMark ++ List.replicate (closingLength - closingMark.length) 0

/-- The bytes from the last closing mark on; `found` are those from the last one before. -/
def fromLastMark (found : Option Bytes) : Bytes → Option Bytes
  | [] => found
  | byte :: rest =>
    fromLastMark (if closingMark.isPrefixOf (byte :: rest) then some (byte :: rest) else found) rest

/-- Tells whether a closing record lists no entries: it is complete and gives the list of
entries no length. -/
def listsNothing (record : Bytes) : Bool :=
  closingLength ≤ record.length && ((record.drop 12).take 4).all (· == 0)

/-- The archive that a package is, if it is one.  Bytes are an archive when their last
closing record lists nothing. -/
def archive? : Package → Option Archive
  | archive a => some a
  | raw bytes => if (fromLastMark none bytes).any listsNothing then some {} else none

end Package

/-- Where a template comes from: from memory, or from a path at which there may be
nothing. -/
inductive Source where
  | memory (package : Package)
  | file (path : String) (package : Option Package)
  deriving DecidableEq, Repr, Inhabited

/-- The report of a file that is not there. -/
def missingFileText (path : String) : String :=
  "[Errno 2] No such file or directory: " ++ Text.quoted path

end Stencil
