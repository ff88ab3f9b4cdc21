import Stencil.Proofs.Word.Filling

/-!
# What filling makes of links

The text of a paragraph is read with its links, but it is written into the runs alone, which
leaves the links as they are.  So a paragraph that is written says what its links say twice.
The text around the tokens is kept exactly where nothing is replaced or no link says anything.
-/

namespace Stencil.Word

open Token

/-- What the links in front of the first run say. -/
def linkTextBefore (inlines : List Inline) : List Char :=
  linkText (inlines.takeWhile fun inline => !inline.isRun)

/-- What the links behind the first run say. -/
def linkTextBehind (inlines : List Inline) : List Char :=
  linkText (inlines.dropWhile fun inline => !inline.isRun)

/-- The text of a paragraph with the tokens of every key replaced, key by key. -/
def substitutedText (values : Values) (inlines : List Inline) : List Char :=
  replaceAllKeys values (textOf inlines).toList

theorem linkText_eq_append (inlines : List Inline) :
    linkText inlines = linkTextBefore inlines ++ linkTextBehind inlines := by
  rw [linkTextBefore, linkTextBehind, linkText, linkText, linkText, ← List.flatMap_append,
    List.takeWhile_append_dropWhile]

/-- A text that is written into a paragraph stands between what its links say. -/
theorem textOf_writeInto {inlines : List Inline} (hasRun : inlines.any Inline.isRun = true)
    (text : List Char) :
    (textOf (writeInto text inlines)).toList =
      linkTextBefore inlines ++ (runText text).toList ++ linkTextBehind inlines := by
  induction inlines with
  | nil => cases hasRun
  | cons inline rest ih =>
      cases inline with
      | run shown =>
          rw [writeInto, textOf_cons, textOf_emptyRuns]
          rfl
      | link shown =>
          rw [writeInto, textOf_cons, ih hasRun]
          simp only [linkTextBefore, linkTextBehind, linkText, Inline.isRun, Inline.text,
            Bool.not_false, List.takeWhile_cons_of_pos, List.dropWhile_cons_of_pos,
            List.flatMap_cons, List.append_assoc, Bool.false_eq_true, if_false]

/-- A run reads back as it was written when no line end is changed. -/
theorem toList_runText_eq_self_iff {text : List Char} :
    (runText text).toList = text ↔ '\r' ∉ text := by
  rw [runText, String.toList_ofList]
  induction text with
  | nil => simp
  | cons c rest ih =>
      rw [List.map_cons, List.cons.injEq, ih, List.mem_cons, not_or]
      by_cases isReturn : c = '\r'
      · simp [isReturn]
      · simp [isReturn, Ne.symm isReturn]

theorem length_runText (text : List Char) : (runText text).toList.length = text.length := by
  rw [runText, String.toList_ofList, List.length_map]

/-- Nothing is to be replaced in a text without braces, so it need not be searched. -/
theorem filledText_eq_substitutedText (values : Values) (inlines : List Inline) :
    filledText values inlines = substitutedText values inlines := by
  unfold filledText substitutedText
  dsimp only
  split
  · rfl
  · next noToken =>
      rw [replaceAllKeys_of_plain]
      simpa [mayHoldToken] using noToken

variable {values : Values} {inlines : List Inline}

/-- The text of a paragraph that is filled once. -/
theorem textOf_fillOnce (hasRun : inlines.any Inline.isRun = true) :
    (textOf (fillOnce values inlines)).toList =
      if substitutedText values inlines = (textOf inlines).toList then (textOf inlines).toList
      else linkTextBefore inlines ++ (runText (substitutedText values inlines)).toList ++
        linkTextBehind inlines := by
  rw [fillOnce, isChanged, hasRun, Bool.and_true, filledText_eq_substitutedText]
  by_cases same : substitutedText values inlines = (textOf inlines).toList
  · simp [same]
  · rw [if_pos (bne_iff_ne.mpr same), if_neg same, textOf_writeInto hasRun]

/-- A paragraph that is filled once reads as its text with the tokens replaced exactly when
nothing is replaced, or no link says anything and no line end is changed. -/
theorem textOf_fillOnce_eq_substitutedText_iff (hasRun : inlines.any Inline.isRun = true) :
    (textOf (fillOnce values inlines)).toList = substitutedText values inlines ↔
      substitutedText values inlines = (textOf inlines).toList ∨
        linkText inlines = [] ∧ '\r' ∉ substitutedText values inlines := by
  rw [textOf_fillOnce hasRun]
  by_cases same : substitutedText values inlines = (textOf inlines).toList
  · simp [same]
  · rw [if_neg same, or_iff_right same, linkText_eq_append, List.append_eq_nil_iff,
      ← toList_runText_eq_self_iff]
    constructor
    · intro written
      -- The written text alone is as long as the whole, so nothing stands around it.
      have lengths := congrArg List.length written
      rw [List.length_append, List.length_append, length_runText] at lengths
      have before_eq : linkTextBefore inlines = [] := List.length_eq_zero_iff.mp (by omega)
      have behind_eq : linkTextBehind inlines = [] := List.length_eq_zero_iff.mp (by omega)
      rw [before_eq, behind_eq, List.nil_append, List.append_nil] at written
      exact ⟨⟨before_eq, behind_eq⟩, written⟩
    · rintro ⟨⟨before_eq, behind_eq⟩, written⟩
      rw [before_eq, behind_eq, List.nil_append, List.append_nil, written]

/-- What becomes of the text of a paragraph with a run that is visited once. -/
structure IsFilledOnce (values : Values) (before after : Nat × List Inline) : Prop where
  visits_eq : after.1 = before.1
  text_eq : before.1 = 1 → before.2.any Inline.isRun = true →
    (textOf after.2).toList =
      if substitutedText values before.2 = (textOf before.2).toList then
        (textOf before.2).toList
      else linkTextBefore before.2 ++ (runText (substitutedText values before.2)).toList ++
        linkTextBehind before.2
  kept_iff : before.1 = 1 → before.2.any Inline.isRun = true →
    ((textOf after.2).toList = substitutedText values before.2 ↔
      substitutedText values before.2 = (textOf before.2).toList ∨
        linkText before.2 = [] ∧ '\r' ∉ substitutedText values before.2)

theorem isFilledOnce_changed (values : Values) (paragraph : Nat × List Inline) :
    IsFilledOnce values paragraph (changed (fillTimes values) paragraph) where
  visits_eq := rfl
  text_eq once hasRun := by
    rw [changed, once]
    exact textOf_fillOnce hasRun
  kept_iff once hasRun := by
    rw [changed, once]
    exact textOf_fillOnce_eq_substitutedText_iff hasRun

namespace Document

/-- When a document is filled, each of its paragraphs that has a run and is visited once keeps
its text around the tokens exactly when nothing is replaced in it, or when none of its links
says anything and no line end is changed.  Otherwise its new text stands between what its links
say once more. -/
theorem paragraphs_fill {document : Document} {filled : Filled}
    (succeeds : document.fill? values = some filled) :
    List.Forall₂ (IsFilledOnce values) document.paragraphs filled.document.paragraphs := by
  have document_eq : filled.document = document.mapParagraphs (fillTimes values) := by
    unfold fill? at succeeds
    split at succeeds
    · cases succeeds
      rfl
    · cases succeeds
  rw [document_eq, paragraphs_mapParagraphs, List.forall₂_map_right_iff]
  exact List.forall₂_same.mpr fun paragraph _ => isFilledOnce_changed values paragraph

/-- A note with a token next to a link, a token that is cut into runs, and a link alone. -/
def linkedNote : Document :=
  { body := [
      .paragraph [.run "{A} ", .link "site"],
      .paragraph [.run "see \x7b", .run "A\x7d"],
      .paragraph [.link "{A}"]] }

/-- A value for the note. -/
def noteValues : Values := [("A", "v")]

theorem paragraphs_fill_linkedNote :
    ∃ filled, linkedNote.fill? noteValues = some filled ∧
      List.Forall₂ (IsFilledOnce noteValues) linkedNote.paragraphs
        filled.document.paragraphs := by
  obtain ⟨filled, succeeds⟩ : ∃ filled, linkedNote.fill? noteValues = some filled := ⟨_, rfl⟩
  exact ⟨filled, succeeds, paragraphs_fill succeeds⟩

/-- The link behind a token is said twice. -/
theorem link_is_repeated :
    (∀ entry ∈ noteValues, openBrace ∉ entry.2.toList) ∧
      linkedNote.paragraphs.head? = some (1, [.run "{A} ", .link "site"]) ∧
      substitutedText noteValues [.run "{A} ", .link "site"] = "v site".toList ∧
      ∃ filled, linkedNote.fill? noteValues = some filled ∧
        filled.document.paragraphs.head? = some (1, [.run "v site", .link "site"]) ∧
        (textOf [.run "v site", .link "site"]).toList = "v sitesite".toList := by
  refine ⟨by decide, by decide, by decide +kernel, _, rfl, ?_, by decide⟩
  decide +kernel

end Document

end Stencil.Word
