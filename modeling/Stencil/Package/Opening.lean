import Stencil.Package.Watermark
import Stencil.Word.Vocabulary
import Stencil.Xml.Tree

/-!
# Opening a package

A package opens as a document when its tables lead to a main part.  From the
package on, relations are followed from part to part; every part that is reached
must be listed, and every part that is markup must be well-formed.  Relations to
targets outside of the package are not followed.  The types that the package declares
for its parts are not looked at: a part is markup when its name ends like markup.
-/

namespace Stencil

/-- Why a package does not open. -/
inductive OpenError where
  | notArchive
  /-- There is no archive at the path. -/
  | notFound (path : String)
  /-- An entry that is needed is not listed. -/
  | missingEntry (name : String)
  /-- No relation leads to a main part. -/
  | noMainPart
  /-- A part is referred to by an id that is not in the table. -/
  | unknownRelation (id : String)
  /-- Some part is not well-formed markup. -/
  | malformed
  deriving DecidableEq, Repr

/-- A relation of a part to another one. -/
structure Relation where
  id : String
  type : String
  target : String
  isExternal : Bool := false
  deriving DecidableEq, Repr, Inhabited

namespace Relation

/-- The type of the relation to the main part. -/
def mainType : String := Word.formatSpace "officeDocument/2006/relationships/officeDocument"

/-- The type of the relation to a header or a footer. -/
def partType (kind : String) : String :=
  Word.formatSpace ("officeDocument/2006/relationships/" ++ kind)

/-- Reads the relations of a table. -/
def ofTable (table : Xml.Node) : List Relation :=
  (table.childrenNamed ⟨Word.relationTableSpace, "Relationship"⟩).map fun node =>
    { id := (node.attribute? (Word.bare "Id")).getD ""
      type := (node.attribute? (Word.bare "Type")).getD ""
      target := (node.attribute? (Word.bare "Target")).getD ""
      isExternal := node.attribute? (Word.bare "TargetMode") == some "External" }

end Relation

/-- The text of a report on a package that does not open. -/
def OpenError.message : OpenError → String
  | .notArchive => notArchiveText
  | .notFound path => "Package not found at '" ++ path ++ "'"
  | .missingEntry name =>
    Text.quoted ("There is no item named " ++ Text.quoted name ++ " in the archive")
  | .noMainPart =>
    Text.quoted ("no relationship of type '" ++ Relation.mainType ++ "' in collection")
  | .unknownRelation id => Text.quoted id
  | .malformed => "The markup is not well-formed"

/-- A package that is open: the name and the tree of its main part, and the parts
that it relates to by id. -/
structure OpenPackage where
  mainName : String
  main : Xml.Node
  related : List (String × Option Xml.Node)
  deriving Inhabited

namespace OpenPackage

/-- The components of a path within a package. -/
def components (path : List Char) : List (List Char) :=
  (Text.splitWhere (· == '/') path).filter fun part => !part.isEmpty && part != ['.']

/-- Takes steps up out of a path. -/
def resolveSteps (parts : List (List Char)) : List (List Char) :=
  parts.foldl (fun base part => if part == ['.', '.'] then base.dropLast else base ++ [part]) []

/-- The name of the target of a relation, relative to the folder of its source. -/
def targetName (source target : String) : String :=
  let cs := target.toList
  let base := if cs.head? == some '/' then [] else (components source.toList).dropLast
  String.ofList (Text.join ['/'] (resolveSteps (base ++ components cs)))

/-- The name of the table of relations of a part; the package itself has an empty
name. -/
def tableName (part : String) : String :=
  let parts := components part.toList
  let folder := parts.dropLast ++ ["_rels".toList]
  String.ofList (Text.join ['/'] (folder ++ [(parts.getLast?.getD []) ++ ".rels".toList]))

/-- The relations of a part; a part without table has none. -/
def relationsOf (archive : Archive) (part : String) : Except OpenError (List Relation) :=
  match archive.content? (tableName part) with
  | none => .ok []
  | some content =>
    match Xml.Node.parse? .keep content with
    | some table => .ok (Relation.ofTable table)
    | none => .error .malformed

/-- The content of an entry that is needed. -/
def needed (archive : Archive) (name : String) : Except OpenError Bytes :=
  match archive.content? name with
  | some content => .ok content
  | none => .error (.missingEntry name)

/-- Follows relations to parts that were not reached before, each part before the
parts that it relates to.  The fuel bounds the number of parts and relations. -/
def reach (archive : Archive) : (fuel : Nat) → (source : String) → List Relation →
    (reached : List String) → Except OpenError (List String)
  | 0, _, _, reached => .ok reached
  | _ + 1, _, [], reached => .ok reached
  | fuel + 1, source, relation :: rest, reached => do
    let target := targetName source relation.target
    if relation.isExternal || reached.contains target then reach archive fuel source rest reached
    else
      let relations ← relationsOf archive target
      let _ ← needed archive target
      let reached ← reach archive fuel target relations (reached ++ [target])
      reach archive fuel source rest reached

/-- Tells whether a part is markup. -/
def isMarkup (name : String) : Bool :=
  ".xml".toList.isSuffixOf name.toList

/-- The tree of a part, if it is markup. -/
def treeOf (archive : Archive) (name : String) : Except OpenError (Option Xml.Node) :=
  if isMarkup name then
    match Xml.Node.parse? .keep (archive.contentOf name) with
    | some root => .ok (some root)
    | none => .error .malformed
  else .ok none

/-- Opens an archive. -/
def ofArchive (archive : Archive) : Except OpenError OpenPackage := do
  let types ← needed archive "[Content_Types].xml"
  if (Xml.Node.parse? .keep types).isNone then throw .malformed
  let relations ← relationsOf archive ""
  let bound := archive.entries.foldl (fun size (_, content) => size + content.length + 2) 2
  let reached ← reach archive bound "" relations []
  let trees ← reached.mapM fun name => do return (name, ← treeOf archive name)
  match relations.find? fun relation => relation.type == Relation.mainType with
  | none => throw .noMainPart
  | some relation =>
    let mainName := targetName "" relation.target
    let own ← relationsOf archive mainName
    return {
      mainName
      main := ((trees.lookup mainName).getD none).getD .aside
      related := own.map fun relation =>
        (relation.id, (trees.lookup (targetName mainName relation.target)).getD none) }

/-- Opens a package. -/
def ofPackage (package : Package) : Except OpenError OpenPackage :=
  match package.archive? with
  | some archive => ofArchive archive
  | none => .error .notArchive

/-- Opens a template. -/
def ofSource : Source → Except OpenError OpenPackage
  | .memory package => ofPackage package
  | .file path none => .error (.notFound path)
  | .file path (some package) =>
    match package.archive? with
    | some archive => ofArchive archive
    | none => .error (.notFound path)

/-- Checks that a template opens.  The result is what is reported if it does not;
markup that is not well-formed is no such report but stops the check. -/
def validate (source : Source) : Except OpenError (Option String) :=
  match ofSource source with
  | .ok _ => .ok none
  | .error .malformed => .error .malformed
  | .error other => .ok (some ("Invalid document format: " ++ other.message))

end OpenPackage

end Stencil
