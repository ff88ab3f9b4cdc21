import Stencil.Proofs.Placeholder.MergedRecord
import Stencil.Proofs.Placeholder.TokenMatch

/-!
# Placeholders of token lists

The placeholder of a token depends on the tag of the token only, so lists of tokens become the
placeholders of their distinct tags.  When these tags are taken for tokens again, all of them but
the empty one are kept.  An empty tag comes about as tokens that name nothing are told by braces
and plain blanks, while braces and blanks of every kind are taken off a name: a token of blanks
that are not all plain falls between the two rules.
-/

namespace Stencil

namespace Token

open Stencil.Text

/-- The tag of the placeholder of a token. -/
def tagOf (token : String) : String :=
  String.ofList (clean token.toList)

/-- The tags of the tokens that are not left out. -/
def keptTags (tokens : List String) : List String :=
  (tokens.filter fun token => !isEmptyName token).map tagOf

/-- A token of braces and blanks, at least one of which is no plain blank. -/
def IsHollow (token : String) : Prop :=
  (∀ c ∈ token.toList, isBrace c = true ∨ isBlank c = true) ∧
    ∃ c ∈ token.toList, isBlank c = true ∧ c ≠ ' '

theorem fullTagName_toPlaceholder (token : String) :
    (toPlaceholder token).fullTagName = tagOf token :=
  rfl

@[simp]
theorem tagOf_tagOf (token : String) : tagOf (tagOf token) = tagOf token := by
  rw [tagOf, tagOf, String.toList_ofList, clean_clean]

/-- The placeholder of a token is that of its tag. -/
theorem toPlaceholder_tagOf (token : String) : toPlaceholder (tagOf token) = toPlaceholder token := by
  simp only [toPlaceholder, tagOf, String.toList_ofList, clean_clean]

theorem toPlaceholders_eq (tokens : List String) :
    toPlaceholders tokens = (keptTags tokens).map toPlaceholder := by
  rw [toPlaceholders, keptTags, List.map_map]
  exact List.map_congr_left fun token _ => (toPlaceholder_tagOf token).symm

/-- Tags are not changed when they are taken for tokens. -/
theorem map_tagOf {tags : List String} (cleaned : ∀ tag ∈ tags, tagOf tag = tag) :
    tags.map tagOf = tags := by
  calc
    tags.map tagOf = tags.map id := List.map_congr_left cleaned
    _ = tags := List.map_id tags

theorem clean_eq_nil_iff {cs : List Char} :
    clean cs = [] ↔ ∀ c ∈ cs, isBrace c = true ∨ isBlank c = true := by
  constructor
  · intro empty c cMem
    by_contra neither
    rw [not_or, Bool.not_eq_true, Bool.not_eq_true] at neither
    have kept : c ∈ cs.filter fun c => !isBrace c := by simp [cMem, neither.1]
    have left := mem_trim kept neither.2
    rw [← clean, empty] at left
    cases left
  · intro fillers
    apply trim_eq_nil_of_allBlank
    intro c cMem
    rcases List.mem_filter.mp cMem with ⟨given, notBrace⟩
    rcases fillers c given with brace | blank
    · simp [brace] at notBrace
    · exact blank

theorem tagOf_eq_empty_iff {token : String} :
    tagOf token = "" ↔ ∀ c ∈ token.toList, isBrace c = true ∨ isBlank c = true := by
  rw [tagOf, String.ofList_eq_empty_iff, clean_eq_nil_iff]

/-- Hollow tokens are those that are kept with an empty tag. -/
theorem isHollow_iff {token : String} :
    IsHollow token ↔ isEmptyName token = false ∧ tagOf token = "" := by
  rw [tagOf_eq_empty_iff, and_comm, IsHollow, isEmptyName, List.all_eq_false]
  constructor
  · rintro ⟨fillers, c, cMem, blank, unusual⟩
    refine ⟨fillers, c, cMem, ?_⟩
    have allBlank : AllBlank [c] := by simpa [AllBlank] using blank
    have notBrace := braceFree_of_allBlank allBlank c List.mem_cons_self
    simp [notBrace, unusual]
  · rintro ⟨fillers, c, cMem, unusual⟩
    simp only [Bool.or_eq_true, beq_iff_eq, not_or, Bool.not_eq_true] at unusual
    have blank := (fillers c cMem).resolve_left (by simp [unusual.1])
    exact ⟨fillers, c, cMem, blank, unusual.2⟩

/-- Of tags, the empty one alone is left out. -/
theorem isEmptyName_tagOf (token : String) : isEmptyName (tagOf token) = (tagOf token == "") := by
  by_cases empty : tagOf token = ""
  · rw [empty]
    rfl
  · have isName : IsName (tagOf token).toList := by
      constructor
      · rw [tagOf, String.toList_ofList, clean_clean]
      · simpa using empty
    rw [isName.isEmptyName_eq_false, beq_eq_false_iff_ne.mpr empty]

theorem keptTags_of_tags {tags : List String} (cleaned : ∀ tag ∈ tags, tagOf tag = tag) :
    keptTags tags = tags.filter (· != "") := by
  have filter_eq : (tags.filter fun tag => !isEmptyName tag) = tags.filter (· != "") := by
    apply List.filter_congr
    intro tag tagMem
    rw [← cleaned tag tagMem, isEmptyName_tagOf]
    rfl
  rw [keptTags, filter_eq]
  exact map_tagOf fun tag tagMem => cleaned tag (List.mem_filter.mp tagMem).1

theorem tagOf_of_mem_keptTags {tokens : List String} {tag : String}
    (tagMem : tag ∈ keptTags tokens) : tagOf tag = tag := by
  rcases List.mem_map.mp tagMem with ⟨token, _, rfl⟩
  exact tagOf_tagOf token

theorem empty_mem_keptTags_iff {tokens : List String} :
    "" ∈ keptTags tokens ↔ ∃ token ∈ tokens, IsHollow token := by
  simp only [keptTags, List.mem_map, List.mem_filter, isHollow_iff, Bool.not_eq_eq_eq_not,
    Bool.not_true, and_assoc]

end Token

namespace Placeholder

open Token

/-- Placeholders that are determined by their tags are merged as their tags are. -/
theorem merge_eq_map_eraseDups {record : String → Placeholder} {placeholders : List Placeholder}
    (determined : ∀ p ∈ placeholders, record p.fullTagName = p) :
    merge placeholders = (tagsOf placeholders).eraseDups.map record := by
  calc
    merge placeholders = (merge placeholders).map id := (List.map_id _).symm
    _ = (merge placeholders).map fun p => record p.fullTagName :=
      List.map_congr_left fun p pMem => (determined p (mem_of_mem_merge pMem)).symm
    _ = (tagsOf (merge placeholders)).map record := by
      rw [tagsOf, List.map_map]
      rfl
    _ = (tagsOf placeholders).eraseDups.map record := by
      rw [tagsOf_merge, eraseDups_eq_addAllNew]

theorem tagsOf_map_toPlaceholder {tags : List String} (cleaned : ∀ tag ∈ tags, tagOf tag = tag) :
    tagsOf (tags.map toPlaceholder) = tags := by
  rw [tagsOf, List.map_map]
  exact map_tagOf cleaned

variable (lists : List (List String))

theorem tagOf_of_mem_flatMap_keptTags :
    ∀ tag ∈ lists.flatMap keptTags, tagOf tag = tag := by
  intro tag tagMem
  rcases List.mem_flatMap.mp tagMem with ⟨tokens, _, kept⟩
  exact tagOf_of_mem_keptTags kept

/-- Lists of tokens become the placeholders of their tags, each at its first place. -/
theorem ofTokenLists_eq :
    ofTokenLists lists = (lists.flatMap keptTags).eraseDups.map toPlaceholder := by
  have placeholders_eq : (lists.map toPlaceholders).flatten =
      (lists.flatMap keptTags).map toPlaceholder := by
    rw [List.map_flatMap, List.flatMap_def]
    congr 1
    exact List.map_congr_left fun tokens _ => toPlaceholders_eq tokens
  rw [ofTokenLists, placeholders_eq, merge_eq_map_eraseDups,
    tagsOf_map_toPlaceholder (tagOf_of_mem_flatMap_keptTags lists)]
  intro p pMem
  rcases List.mem_map.mp pMem with ⟨tag, _, rfl⟩
  exact toPlaceholder_tagOf tag

theorem tagsOf_ofTokenLists :
    tagsOf (ofTokenLists lists) = (lists.flatMap keptTags).eraseDups := by
  rw [ofTokenLists_eq, tagsOf_map_toPlaceholder]
  intro tag tagMem
  exact tagOf_of_mem_flatMap_keptTags lists tag (List.mem_eraseDups.mp tagMem)

theorem empty_mem_tagsOf_ofTokenLists_iff :
    "" ∈ tagsOf (ofTokenLists lists) ↔ ∃ tokens ∈ lists, ∃ token ∈ tokens, IsHollow token := by
  rw [tagsOf_ofTokenLists, List.mem_eraseDups, List.mem_flatMap]
  simp only [empty_mem_keptTags_iff]

variable {lists}

/-- A placeholder of tokens is that of its own tag. -/
theorem toPlaceholder_fullTagName {p : Placeholder} (pMem : p ∈ ofTokenLists lists) :
    toPlaceholder p.fullTagName = p ∧ tagOf p.fullTagName = p.fullTagName := by
  rw [ofTokenLists_eq] at pMem
  rcases List.mem_map.mp pMem with ⟨tag, _, rfl⟩
  exact ⟨toPlaceholder_tagOf tag, tagOf_tagOf tag⟩

variable (lists)

/-- Normalising the tags of a normalised list keeps all of it but an empty tag. -/
theorem ofTokenLists_again :
    ofTokenLists [tagsOf (ofTokenLists lists)] =
      (ofTokenLists lists).filter (·.fullTagName != "") := by
  have cleaned : ∀ tag ∈ tagsOf (ofTokenLists lists), tagOf tag = tag := by
    intro tag tagMem
    rcases List.mem_map.mp tagMem with ⟨p, pMem, rfl⟩
    exact (toPlaceholder_fullTagName pMem).2
  have kept : toPlaceholders (tagsOf (ofTokenLists lists)) =
      (ofTokenLists lists).filter (·.fullTagName != "") := by
    calc
      toPlaceholders (tagsOf (ofTokenLists lists)) =
          ((ofTokenLists lists).filter (·.fullTagName != "")).map
            fun p => toPlaceholder p.fullTagName := by
        rw [toPlaceholders_eq, keptTags_of_tags cleaned, tagsOf, List.filter_map, List.map_map]
        rfl
      _ = ((ofTokenLists lists).filter (·.fullTagName != "")).map id :=
        List.map_congr_left fun p pMem =>
          (toPlaceholder_fullTagName (List.mem_filter.mp pMem).1).1
      _ = (ofTokenLists lists).filter (·.fullTagName != "") := List.map_id _
  have nodup : (tagsOf ((ofTokenLists lists).filter (·.fullTagName != ""))).Nodup :=
    (nodup_tagsOf_merge _).sublist (List.filter_sublist.map _)
  rw [ofTokenLists, List.map_singleton, List.flatten_singleton, kept, merge_eq_self nodup]

/-- Normalising again drops the empty tag and keeps all else, so it changes nothing exactly when
no token is hollow, which is when no tag is empty. -/
theorem normalising_again :
    ofTokenLists [tagsOf (ofTokenLists lists)] =
      (ofTokenLists lists).filter (·.fullTagName != "") ∧
    (ofTokenLists [tagsOf (ofTokenLists lists)] = ofTokenLists lists ↔
      ∀ tokens ∈ lists, ∀ token ∈ tokens, ¬IsHollow token) ∧
    ("" ∈ tagsOf (ofTokenLists lists) ↔ ∃ tokens ∈ lists, ∃ token ∈ tokens, IsHollow token) := by
  refine ⟨ofTokenLists_again lists, ?_, empty_mem_tagsOf_ofTokenLists_iff lists⟩
  have nameless : ("" ∈ tagsOf (ofTokenLists lists)) ↔
      ¬∀ tokens ∈ lists, ∀ token ∈ tokens, ¬IsHollow token := by
    rw [empty_mem_tagsOf_ofTokenLists_iff]
    push Not
    rfl
  rw [ofTokenLists_again, List.filter_eq_self, ← not_iff_not, ← nameless]
  simp [tagsOf]

/-- A tab is not left out, and makes a placeholder without a tag that does not last. -/
theorem tab_makes_nameless_placeholder :
    tagsOf (ofTokenLists [["\t"]]) = [""] ∧
    ofTokenLists [tagsOf (ofTokenLists [["\t"]])] = [] := by
  decide +kernel

end Placeholder

end Stencil
