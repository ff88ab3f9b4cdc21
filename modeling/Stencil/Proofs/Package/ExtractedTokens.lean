import Stencil.Proofs.Placeholder.Scanning
import Stencil.Proofs.Placeholder.TokenLists

/-!
# Extracted tokens as placeholders

An extracted token is a name: it is not empty, and it has no braces and no blanks around it.
Normalisation takes nothing off a name, so every token has its placeholder, with the token as its
tag.  The text of that placeholder, put into a template of its own, is extracted as the same token
again, and its tag is parted at the last dot.
-/

namespace Stencil

namespace Token

open Stencil.Text

/-- The tag of a token is the parent tag, a dot and the segment behind the last dot, which words
its name.  Without a dot it is that segment alone. -/
theorem parted_toPlaceholder (token : String) :
    ∃ segment : String, groupMark ∉ segment.toList ∧
      (toPlaceholder token).name = Wording.displayNameOf segment ∧
      (toPlaceholder token).fullTagName =
        if Placeholder.isDotted (toPlaceholder token).fullTagName
        then (toPlaceholder token).parentTagName ++ "." ++ segment else segment := by
  obtain ⟨last, last_eq, free, tag_eq⟩ := parted_at_last_mark groupMark (clean token.toList)
  refine ⟨String.ofList last, by rwa [String.toList_ofList], ?_, ?_⟩
  · simp only [toPlaceholder, last_eq, Option.getD_some, Wording.displayNameOf, mapChars,
      String.toList_ofList]
  · apply String.toList_inj.mp
    simp only [toPlaceholder, Placeholder.isDotted, String.toList_ofList, List.contains_iff_mem]
    split at tag_eq
    · next dotted =>
        rw [if_pos dotted]
        simp only [String.toList_append, String.toList_ofList, List.append_assoc]
        exact tag_eq
    · next undotted => rw [if_neg undotted, String.toList_ofList, ← tag_eq]

end Token

namespace Extraction

open Stencil.Text Token Placeholder

/-- A placeholder as an extracted token makes it: it is untyped, its text is extracted as its tag,
wherever a paragraph of that text is cut, and its tag is parted at the last dot. -/
structure IsFaithful (p : Placeholder) : Prop where
  untyped : p.isTyped = false
  extracted : ∀ children attributes, Word.NoParagraph (Xml.Node.preorderAll children) →
    String.join (Word.elementTexts (Xml.Node.preorderAll children)) = p.placeholderText →
      tokensOf (.element (Word.named "p") attributes children) = [p.fullTagName]
  parted : ∃ segment : String, groupMark ∉ segment.toList ∧
    p.name = Wording.displayNameOf segment ∧
    p.fullTagName =
      if isDotted p.fullTagName then p.parentTagName ++ "." ++ segment else segment

/-- The text of the placeholder of a name is that of a token with the name. -/
theorem tokensOf_placeholderText {token : String} (isName : IsName token.toList)
    {children : List Xml.Node} (attributes : List Xml.Attribute)
    (noParagraph : Word.NoParagraph (Xml.Node.preorderAll children))
    (text_eq : String.join (Word.elementTexts (Xml.Node.preorderAll children)) =
      (toPlaceholder token).placeholderText) :
    tokensOf (.element (Word.named "p") attributes children) =
      [(toPlaceholder token).fullTagName] := by
  have readable : ∀ segment ∈ [Segment.token token.toList], segment.IsReadable := by
    intro segment segmentMem
    rw [List.mem_singleton.mp segmentMem]
    exact isName.braceFree
  have written : Word.IsWrittenOf [.token token.toList] children := by
    refine ⟨noParagraph, ?_⟩
    rw [← String.toList_join, text_eq]
    simp [toPlaceholder, isName.clean_eq, Segment.textOf, Segment.text]
  have names_eq : Segment.names [.token token.toList] = [token.toList] := by
    simp [Segment.names, Segment.name?, isName.trim_eq, isName.ne_nil]
  rw [tokensOf_paragraph readable written attributes, names_eq, isName.fullTagName_toPlaceholder]
  simp

theorem isFaithful_toPlaceholder {token : String} (isName : IsName token.toList) :
    IsFaithful (toPlaceholder token) where
  untyped := rfl
  extracted := fun _ attributes => tokensOf_placeholderText isName attributes
  parted := parted_toPlaceholder token

/-- Tokens that are names have these for the tags of their placeholders. -/
theorem keptTags_of_names {tokens : List String}
    (names : ∀ token ∈ tokens, IsName token.toList) : keptTags tokens = tokens := by
  have tags_eq := tags_toPlaceholders names
  rwa [toPlaceholders_eq, ← tagsOf, tagsOf_map_toPlaceholder fun _ => tagOf_of_mem_keptTags]
    at tags_eq

/-- Extracted tokens survive normalisation one to one: they are names, which all have a placeholder
with the token as its tag, merged in the order of their first places, and the text of each of
these placeholders is extracted as its tag again. -/
theorem tokens_survive_normalisation {parts : List (String × Bytes)} {extraction : Extraction}
    (extracted : ofParts parts = .ok extraction) :
    (∀ token ∈ extraction.tokens,
      token ≠ "" ∧ BraceFree token.toList ∧ trim token.toList = token.toList) ∧
    (toPlaceholders extraction.tokens).map (·.fullTagName) = extraction.tokens ∧
    tagsOf (ofTokenLists [extraction.tokens]) = extraction.tokens.eraseDups ∧
    ∀ p ∈ ofTokenLists [extraction.tokens], IsFaithful p := by
  have names : ∀ token ∈ extraction.tokens, IsName token.toList :=
    fun _ => isName_of_ofParts extracted
  have tags_eq : tagsOf (ofTokenLists [extraction.tokens]) = extraction.tokens.eraseDups := by
    rw [tagsOf_ofTokenLists, List.flatMap_singleton, keptTags_of_names names]
  refine ⟨?_, tags_toPlaceholders names, tags_eq, ?_⟩
  · intro token tokenMem
    have isName := names token tokenMem
    exact ⟨by simpa using isName.ne_nil, isName.braceFree, isName.trim_eq⟩
  · intro p pMem
    have tagMem : p.fullTagName ∈ tagsOf (ofTokenLists [extraction.tokens]) :=
      List.mem_map_of_mem pMem
    rw [tags_eq, List.mem_eraseDups] at tagMem
    rw [← (toPlaceholder_fullTagName pMem).1]
    exact isFaithful_toPlaceholder (names _ tagMem)

/-- A part of one paragraph with nested and doubled braces, a stray brace and a blank token. -/
def unbalancedPart : String × Bytes :=
  ("word/document.xml", Utf8.encodeString
    ("<w:p xmlns:w=\"http://schemas.openxmlformats.org/wordprocessingml/2006/main\">" ++
      "<w:t>\x7b\x7b Firm.Seal \x7d\x7d \x7ba\x7bb\x7d \x7b \x7d \x7b\x7bab\x7d</w:t></w:p>"))

theorem tokens_survive_unbalancedPart :
    ofParts [unbalancedPart] = .ok { tokens := ["Firm.Seal", "ab", "ab"] } ∧
    (toPlaceholders ["Firm.Seal", "ab", "ab"]).map (·.fullTagName) = ["Firm.Seal", "ab", "ab"] ∧
    tagsOf (ofTokenLists [["Firm.Seal", "ab", "ab"]]) = ["Firm.Seal", "ab"] ∧
    ∀ p ∈ ofTokenLists [["Firm.Seal", "ab", "ab"]], IsFaithful p := by
  have extracted : ofParts [unbalancedPart] = .ok { tokens := ["Firm.Seal", "ab", "ab"] } := by
    decide +kernel
  obtain ⟨_, kept, distinct, faithful⟩ := tokens_survive_normalisation extracted
  exact ⟨extracted, kept, distinct.trans (by decide +kernel), faithful⟩

end Extraction

end Stencil
