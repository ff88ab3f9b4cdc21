import Stencil.Package.Archive

/-!
# Archives

What is read under a name is the content of the last entry with the name.  An archive that is
written anew, each entry by its name, is read as it was written.
-/

namespace Stencil.Archive

theorem mem_names_of_content? {archive : Archive} {name : String} {content : Bytes}
    (held : archive.content? name = some content) : name ∈ archive.names := by
  obtain ⟨before, after, entries_eq, _⟩ := List.lookup_eq_some_iff.mp held
  have entryMem : (name, content) ∈ archive.entries := by
    rw [← List.mem_reverse, entries_eq]
    simp
  exact List.mem_map_of_mem entryMem

theorem contentOf_of_content? {archive : Archive} {name : String} {content : Bytes}
    (held : archive.content? name = some content) : archive.contentOf name = content := by
  rw [contentOf, held]
  rfl

theorem lookup_map_content (contentUnder : String → Bytes) (entries : List (String × Bytes))
    (name : String) :
    (entries.map fun (own, _) => (own, contentUnder own)).lookup name =
      (entries.lookup name).map fun _ => contentUnder name := by
  induction entries with
  | nil => rfl
  | cons entry rest ih =>
      rcases entry with ⟨own, content⟩
      rw [List.map_cons, List.lookup_cons, List.lookup_cons, ih]
      split
      · next same => rw [beq_iff_eq.mp same, Option.map_some]
      · rfl

/-- What is read from an archive whose entries were written anew, each by its name. -/
theorem content?_map_content (archive : Archive) (contentUnder : String → Bytes) (name : String) :
    content? { entries := archive.entries.map fun (own, _) => (own, contentUnder own) } name =
      (archive.content? name).map fun _ => contentUnder name := by
  rw [content?, ← List.map_reverse, lookup_map_content, content?]

theorem content?_of_mem_names {archive : Archive} {name : String} (listed : name ∈ archive.names) :
    archive.content? name = some (archive.contentOf name) := by
  cases held : archive.content? name with
  | some content => rw [contentOf, held, Option.getD_some]
  | none =>
      obtain ⟨entry, entryMem, rfl⟩ := List.mem_map.mp listed
      have differs := List.lookup_eq_none_iff.mp held entry (List.mem_reverse.mpr entryMem)
      simp at differs

theorem map_contentOf (archive : Archive) (name : String) :
    (archive.content? name).map (fun _ => archive.contentOf name) = archive.content? name := by
  cases held : archive.content? name with
  | none => rfl
  | some content => rw [Option.map_some, contentOf, held, Option.getD_some]

end Stencil.Archive
