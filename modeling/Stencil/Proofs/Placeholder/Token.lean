import Stencil.Package.Extraction
import Stencil.Proofs.Outcome
import Stencil.Proofs.Text.Trim

/-!
# Names of tokens

What is scanned from a text is a proper name: it is not empty, it has no braces, and it
has no blanks around it.  A proper name is not changed any more on its way to
a placeholder, so the tags of the placeholders of a template are its tokens.
-/

namespace Stencil.Token

open Stencil.Text

/-- A name that cleaning leaves alone. -/
structure IsName (cs : List Char) : Prop where
  clean_eq : clean cs = cs
  ne_nil : cs ≠ []

instance (cs : List Char) : Decidable (IsName cs) :=
  decidable_of_iff (clean cs = cs ∧ cs ≠ [])
    ⟨fun name => ⟨name.1, name.2⟩, fun name => ⟨name.clean_eq, name.ne_nil⟩⟩

theorem not_isBrace_of_mem_clean {cs : List Char} {c : Char} (cMem : c ∈ clean cs) :
    isBrace c = false := by
  have kept := (List.mem_filter.mp (mem_of_mem_trim cMem)).2
  simpa using kept

@[simp]
theorem clean_clean (cs : List Char) : clean (clean cs) = clean cs := by
  have filtered : ((clean cs).filter fun c => !isBrace c) = clean cs := by
    rw [List.filter_eq_self]
    intro c cMem
    rw [not_isBrace_of_mem_clean cMem]
    rfl
  rw [clean, filtered, clean, trim_trim]

theorem isName_of_mem_scan {cs name : List Char} (nameMem : name ∈ scan cs) : IsName name := by
  rcases List.mem_filter.mp nameMem with ⟨cleanMem, notEmpty⟩
  rcases List.mem_map.mp cleanMem with ⟨body, _, rfl⟩
  exact ⟨clean_clean body, by simpa using notEmpty⟩

theorem isName_of_mem_namesIn {text token : String} (tokenMem : token ∈ namesIn text) :
    IsName token.toList := by
  rcases List.mem_map.mp tokenMem with ⟨name, nameMem, rfl⟩
  rw [String.toList_ofList]
  exact isName_of_mem_scan nameMem

/-- A name does not consist of braces and plain blanks alone. -/
theorem IsName.isEmptyName_eq_false {token : String} (isName : IsName token.toList) :
    isEmptyName token = false := by
  by_contra notFalse
  have onlyFillers : isEmptyName token = true := by simpa using notFalse
  rw [isEmptyName, List.all_eq_true] at onlyFillers
  have blank : AllBlank (token.toList.filter fun c => !isBrace c) := by
    intro c cMem
    rcases List.mem_filter.mp cMem with ⟨tokenMem, notBrace⟩
    rcases Bool.or_eq_true _ _ ▸ onlyFillers c tokenMem with brace | space
    · simp [brace] at notBrace
    · obtain rfl : c = ' ' := by simpa using space
      decide
  apply isName.ne_nil
  rw [← isName.clean_eq, clean, trim_eq_nil_of_allBlank blank]

theorem IsName.fullTagName_toPlaceholder {token : String} (isName : IsName token.toList) :
    (toPlaceholder token).fullTagName = token := by
  rw [toPlaceholder, isName.clean_eq, String.ofList_toList]

/-- The placeholders of names have these names as tags. -/
theorem tags_toPlaceholders {tokens : List String} (names : ∀ token ∈ tokens, IsName token.toList) :
    (toPlaceholders tokens).map (·.fullTagName) = tokens := by
  have kept : (tokens.filter fun token => !isEmptyName token) = tokens := by
    rw [List.filter_eq_self]
    intro token tokenMem
    rw [(names token tokenMem).isEmptyName_eq_false]
    rfl
  rw [toPlaceholders, kept, List.map_map]
  calc
    tokens.map ((·.fullTagName) ∘ toPlaceholder) = tokens.map id :=
      List.map_congr_left fun token tokenMem => (names token tokenMem).fullTagName_toPlaceholder
    _ = tokens := List.map_id tokens

end Stencil.Token

namespace Stencil.Extraction

open Stencil.Token

theorem isName_of_mem_tokensOf {root : Xml.Node} {token : String}
    (tokenMem : token ∈ tokensOf root) : IsName token.toList := by
  rcases List.mem_flatMap.mp tokenMem with ⟨text, _, nameMem⟩
  exact isName_of_mem_namesIn nameMem

/-- All tokens of a template are names. -/
theorem isName_of_ofParts {parts : List (String × Bytes)} {extraction : Extraction}
    (extracted : ofParts parts = .ok extraction) {token : String}
    (tokenMem : token ∈ extraction.tokens) : IsName token.toList := by
  simp only [ofParts, ofRead] at extracted
  split at extracted
  · cases extracted
  · split at extracted
    · cases extracted
    · cases extracted
      rcases List.mem_flatten.mp tokenMem with ⟨tokens, tokensMem, tokenMem⟩
      rcases List.mem_filterMap.mp tokensMem with ⟨entry, entryMem, entry_eq⟩
      rcases List.mem_map.mp entryMem with ⟨⟨name, content⟩, _, rfl⟩
      rcases Option.map_eq_some_iff.mp entry_eq with ⟨root, _, rfl⟩
      exact isName_of_mem_tokensOf tokenMem

theorem isName_of_ofSource {source : Source} {extraction : Extraction}
    (extracted : ofSource source = .ok extraction) {token : String}
    (tokenMem : token ∈ extraction.tokens) : IsName token.toList := by
  unfold ofSource at extracted
  obtain ⟨parts, _, extracted⟩ := bind_eq_ok.mp extracted
  split at extracted
  · next found =>
      cases extracted
      exact isName_of_ofParts found tokenMem
  · cases extracted

end Stencil.Extraction
