import Stencil.Schema.Basic
import Stencil.Json.Printer

/-!
# Values to fill in

A template is filled with texts by tag.  They are taken from a compiled form: the
value of every field that stands alone, and for every member of a group its value
in the first record of the group.
-/

namespace Stencil

/-- The text for a member of a group: from the first record when it has the
member's key, and otherwise the member's own value. -/
def FormGroup.fillText (group : FormGroup) (member : FormField) : String :=
  let record := (group.value.getD []).headD []
  ((Json.field? record member.key).getD member.value).fillText

/-- The tags of an entry with their texts. -/
def FormEntry.fillValues : FormEntry → List (String × String)
  | .standalone field => [(field.fullTagName, field.value.fillText)]
  | .repeatable group => group.fields.map fun member => (member.fullTagName, group.fillText member)

/-- Puts a text under a tag: a tag that is there keeps its place. -/
def putText (values : List (String × String)) (tag text : String) : List (String × String) :=
  match values with
  | [] => [(tag, text)]
  | (key, old) :: rest =>
    if key == tag then (key, text) :: rest else (key, old) :: putText rest tag text

/-- The tags of a form with the texts to fill in, each tag at its first place and
with its last text. -/
def Schema.fillValues (schema : Schema) : List (String × String) :=
  ((schema.data.flatMap (·.fields)).flatMap FormEntry.fillValues).foldl
    (fun values (tag, text) => putText values tag text) []

end Stencil
