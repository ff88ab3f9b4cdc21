import Stencil.Arrangement.Change

/-!
# Layouts

A layout lays the pool of an arrangement out into steps.  It is a list of entries,
each with the tags of its fields and possibly a title.  An entry selects the tags
that it finds in the pool, one after the other, and moves what is selected into a
new step; then it gives its title to the last step.

An entry is taken as it comes: the fields may be a list, the characters of a text
or the names of an object.
-/

namespace Stencil

/-- An entry of a layout. -/
structure LayoutEntry where
  fields : List String := []
  /-- The title for the step; one that is not given leaves the step its number. -/
  title : Json := .null
  deriving DecidableEq, Repr, Inhabited

/-- Why an entry of a layout cannot be used. -/
inductive LayoutError where
  /-- The entry is no object. -/
  | notRecord
  /-- The fields cannot be listed. -/
  | unlistable
  /-- Some tag is no text. -/
  | tagNotText
  deriving DecidableEq, Repr

/-- What is told of an entry that cannot be used. -/
def LayoutError.message : LayoutError → String
  | .notRecord => "An entry of the layout is no object."
  | .unlistable => "The fields of an entry of the layout cannot be listed."
  | .tagNotText => "A tag of an entry of the layout is no text."

namespace LayoutEntry

/-- The tags that a value lists. -/
def tagsOf : Json → Except LayoutError (List String)
  | .arr items =>
    match items.mapM Json.text? with
    | some tags => .ok tags
    | none => .error .tagNotText
  | .str text => .ok (text.toList.map fun c => String.ofList [c])
  | .obj fields => .ok (fields.map (·.1))
  | _ => .error .unlistable

/-- Reads an entry. -/
def ofJson : Json → Except LayoutError LayoutEntry
  | .obj fields =>
    match tagsOf ((Json.field? fields "fields").getD (.arr [])) with
    | .ok tags => .ok { fields := tags, title := (Json.field? fields "title").getD .null }
    | .error error => .error error
  | _ => .error .notRecord

/-- The tags of an entry that are in the pool. -/
def found (entry : LayoutEntry) (a : Arrangement) : List String :=
  entry.fields.filter a.poolTags.contains

/-- The tags of an entry that are not in the pool. -/
def missing (entry : LayoutEntry) (a : Arrangement) : List String :=
  entry.fields.filter fun tag => !a.poolTags.contains tag

/-- Gives the last step a title. -/
def titled (a : Arrangement) (title : Json) : Arrangement :=
  if title.isGiven then a.setTitle (a.steps.length - 1) title else a

/-- Lays out one entry. -/
def apply (entry : LayoutEntry) (a : Arrangement) : Arrangement :=
  let tags := entry.found a
  if tags.isEmpty then a
  else titled (tags.foldl (fun a tag => a.toggleSelect tag false) a).moveRight entry.title

/-- The report on tags that are not in the pool. -/
def missingText (tags : List String) : String :=
  "Layout fields not in the pool: " ++ ", ".intercalate tags

/-- The reports on an entry. -/
def reports (entry : LayoutEntry) (a : Arrangement) : List String :=
  let tags := entry.missing a
  if tags.isEmpty then [] else [missingText tags]

end LayoutEntry

namespace Layout

/-- The layout of an arrangement for which none is given: one step with all fields. -/
def whole (a : Arrangement) : List LayoutEntry :=
  if a.pool.isEmpty then [] else [{ fields := a.poolTags }]

/-- Lays out the entries of a layout, one after the other. -/
def arrange (entries : List LayoutEntry) (a : Arrangement) : Arrangement :=
  entries.foldl (fun a entry => entry.apply a) a

/-- The reports on the entries of a layout. -/
def reports : List LayoutEntry → Arrangement → List String
  | [], _ => []
  | entry :: rest, a => entry.reports a ++ reports rest (entry.apply a)

/-- The entries up to the first that cannot be used, and why it cannot. -/
def readEntries : List Json → List LayoutEntry × Option LayoutError
  | [] => ([], none)
  | value :: rest =>
    match LayoutEntry.ofJson value with
    | .error error => ([], some error)
    | .ok entry =>
      let (entries, error) := readEntries rest
      (entry :: entries, error)

end Layout

end Stencil
