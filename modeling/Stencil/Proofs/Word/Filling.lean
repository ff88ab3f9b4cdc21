import Mathlib.Data.List.Forall2
import Stencil.Proofs.Placeholder.Substitution
import Stencil.Proofs.Word.Document
import Stencil.Template

/-!
# Filling a well-formed template

A paragraph of a well-formed template is written of pieces, however it is cut into runs.
Filling it substitutes in these pieces.  The paragraph is written of pieces
again, in which no key is left, so further visits find nothing and change nothing.
-/

namespace Stencil.Word

open Token

/-- Tells whether a character reads back as it was written. -/
def isWritable (c : Char) : Bool :=
  Xml.isAllowed c && c != '\r'

/-- A paragraph without links that is written of the pieces of a well-formed template. -/
structure IsWritten (segments : List Segment) (inlines : List Inline) : Prop where
  linkless : ∀ inline ∈ inlines, inline.isRun = true
  text_eq : (textOf inlines).toList = Segment.textOf segments
  proper : ∀ segment ∈ segments, segment.IsProper
  writable : ∀ c ∈ Segment.textOf segments, isWritable c = true

/-- Values that fit into a document. -/
structure Fits (values : Values) : Prop extends Values.IsProper values where
  writable : ∀ entry ∈ values, ∀ c ∈ entry.2.toList, isWritable c = true

theorem toList_textOf (inlines : List Inline) :
    (textOf inlines).toList = inlines.flatMap fun inline => inline.text.toList := by
  rw [textOf, String.toList_join, List.flatMap_map]

theorem textOf_cons (inline : Inline) (rest : List Inline) :
    (textOf (inline :: rest)).toList = inline.text.toList ++ (textOf rest).toList := by
  rw [toList_textOf, toList_textOf, List.flatMap_cons]

theorem runText_of_writable {text : List Char} (writable : ∀ c ∈ text, isWritable c = true) :
    runText text = String.ofList text := by
  have kept : (text.map fun c => if c == '\r' then '\n' else c) = text.map id := by
    apply List.map_congr_left
    intro c cMem
    have isWritable_eq := writable c cMem
    simp only [isWritable, Bool.and_eq_true, bne_iff_ne] at isWritable_eq
    simp [isWritable_eq.2]
  rw [runText, kept, List.map_id]

/-- What the links of a paragraph say. -/
def linkText (inlines : List Inline) : List Char :=
  inlines.flatMap fun inline => if inline.isRun then [] else inline.text.toList

/-- Only the links of a paragraph are left when its runs are emptied. -/
theorem textOf_emptyRuns (inlines : List Inline) :
    (textOf (emptyRuns inlines)).toList = linkText inlines := by
  rw [toList_textOf, emptyRuns, List.flatMap_map, linkText]
  apply List.flatMap_congr
  intro inline _
  cases inline <;> rfl

theorem linkText_of_linkless {inlines : List Inline}
    (linkless : ∀ inline ∈ inlines, inline.isRun = true) : linkText inlines = [] := by
  rw [linkText, List.flatMap_eq_nil_iff]
  intro inline inlineMem
  rw [if_pos (linkless inline inlineMem)]

theorem linkless_emptyRuns {inlines : List Inline}
    (linkless : ∀ inline ∈ inlines, inline.isRun = true) :
    ∀ inline ∈ emptyRuns inlines, inline.isRun = true := by
  intro _ inlineMem
  rcases List.mem_map.mp inlineMem with ⟨inline, originMem, rfl⟩
  cases inline with
  | run text => rfl
  | link text => cases linkless _ originMem

/-- What is written into a paragraph of runs is its text. -/
theorem writeInto_of_linkless {inlines : List Inline} {text : List Char}
    (linkless : ∀ inline ∈ inlines, inline.isRun = true) (filled : inlines ≠ [])
    (writable : ∀ c ∈ text, isWritable c = true) :
    (textOf (writeInto text inlines)).toList = text ∧
      ∀ inline ∈ writeInto text inlines, inline.isRun = true := by
  cases inlines with
  | nil => exact absurd rfl filled
  | cons first rest =>
      rcases List.forall_mem_cons.mp linkless with ⟨firstRun, restLinkless⟩
      cases first with
      | link shown => cases firstRun
      | run shown =>
          constructor
          · rw [writeInto, textOf_cons, textOf_emptyRuns, linkText_of_linkless restLinkless,
              List.append_nil]
            simp [Inline.text, runText_of_writable writable]
          · rw [writeInto]
            exact List.forall_mem_cons.mpr ⟨rfl, linkless_emptyRuns restLinkless⟩

/-- The pieces of a paragraph that has been filled. -/
def filledPieces (values : Values) (segments : List Segment) : List Segment :=
  segments.map (Segment.substituted values)

theorem filledPieces_filledPieces (values : Values) (segments : List Segment) :
    filledPieces values (filledPieces values segments) = filledPieces values segments := by
  rw [filledPieces, filledPieces, List.map_map]
  apply List.map_congr_left
  intro segment _
  exact segment.substituted_substituted values

theorem filledPieces_of_plain {values : Values} {segments : List Segment}
    (plain : openBrace ∉ Segment.textOf segments) : filledPieces values segments = segments := by
  rw [filledPieces]
  calc
    segments.map (Segment.substituted values) = segments.map id := by
      apply List.map_congr_left
      intro segment segmentMem
      exact Segment.substituted_of_name?_eq_none
        (Segment.name?_eq_none_of_plain plain segment segmentMem) values
    _ = segments := List.map_id segments

variable {values : Values} {segments : List Segment} {inlines : List Inline}

theorem mayHoldToken_eq_true (written : IsWritten segments inlines) :
    mayHoldToken (textOf inlines).toList = true ↔ openBrace ∈ Segment.textOf segments := by
  rw [mayHoldToken, List.contains_iff_mem, written.text_eq]

/-- The text that is written into a paragraph is that of its filled pieces. -/
theorem IsWritten.filledText_eq (written : IsWritten segments inlines) (fits : Fits values) :
    filledText values inlines = Segment.textOf (filledPieces values segments) := by
  unfold filledText
  dsimp only
  split
  · rw [written.text_eq, replaceAllKeys_textOf fits.toIsProper written.proper]
    rfl
  · next noToken =>
      rw [filledPieces_of_plain (mt (mayHoldToken_eq_true written).mpr noToken), written.text_eq]

/-- The keys found in a paragraph are those that its pieces name. -/
theorem IsWritten.keysFoundOnce_eq (written : IsWritten segments inlines) (fits : Fits values) :
    keysFoundOnce values inlines =
      (values.map (·.1)).filter fun key => isNamedIn segments key.toList := by
  unfold keysFoundOnce
  dsimp only
  split
  · rw [written.text_eq, keysFound_textOf fits.toIsProper written.proper]
  · next noToken =>
      have plain := mt (mayHoldToken_eq_true written).mpr noToken
      symm
      rw [List.filter_eq_nil_iff]
      intro key _
      rw [isNamedIn, List.any_eq_true]
      rintro ⟨segment, segmentMem, named⟩
      rw [Segment.name?_eq_none_of_plain plain segment segmentMem] at named
      cases named

theorem IsWritten.writable_filledPieces (written : IsWritten segments inlines)
    (fits : Fits values) :
    ∀ c ∈ Segment.textOf (filledPieces values segments), isWritable c = true := by
  intro c cMem
  rcases Segment.mem_textOf_substituted cMem with fromTemplate | ⟨entry, entryMem, fromValue⟩
  · exact written.writable c fromTemplate
  · exact fits.writable entry entryMem c fromValue

/-- A paragraph of runs that filling leaves alone has its filled text already. -/
theorem filledText_of_not_isChanged (linkless : ∀ inline ∈ inlines, inline.isRun = true)
    (kept : ¬isChanged values inlines = true) :
    filledText values inlines = (textOf inlines).toList := by
  cases inlines with
  | nil => rfl
  | cons first rest =>
      have firstRun := linkless first List.mem_cons_self
      simpa [isChanged, firstRun] using kept

/-- A paragraph that has been filled is written of the filled pieces. -/
theorem IsWritten.fillOnce (written : IsWritten segments inlines) (fits : Fits values) :
    IsWritten (filledPieces values segments) (fillOnce values inlines) := by
  have proper : ∀ segment ∈ filledPieces values segments, segment.IsProper := by
    intro _ segmentMem
    rcases List.mem_map.mp segmentMem with ⟨segment, originMem, rfl⟩
    exact (written.proper segment originMem).substituted fits.toIsProper
  have writable := written.writable_filledPieces fits
  unfold Word.fillOnce
  split
  · next changes =>
      simp only [isChanged, Bool.and_eq_true, List.any_eq_true] at changes
      rcases changes with ⟨_, inline, inlineMem, _⟩
      rw [written.filledText_eq fits]
      obtain ⟨text_eq, linkless⟩ := writeInto_of_linkless written.linkless
        (List.ne_nil_of_mem inlineMem) writable
      exact ⟨linkless, text_eq, proper, writable⟩
  · next kept =>
      refine ⟨written.linkless, ?_, proper, writable⟩
      rw [← written.filledText_eq fits, filledText_of_not_isChanged written.linkless kept]

/-- The pieces of a paragraph that is filled a number of times. -/
def piecesAfter (values : Values) (visits : Nat) (segments : List Segment) : List Segment :=
  if visits = 0 then segments else filledPieces values segments

/-- However often a paragraph is visited, it comes to be written of the filled pieces. -/
theorem IsWritten.fillTimes (written : IsWritten segments inlines) (fits : Fits values)
    (visits : Nat) :
    IsWritten (piecesAfter values visits segments) (fillTimes values visits inlines) := by
  induction visits generalizing segments inlines with
  | zero => exact written
  | succ visits ih =>
      have pieces_eq : piecesAfter values (visits + 1) segments =
          piecesAfter values visits (filledPieces values segments) := by
        unfold piecesAfter
        rw [if_neg (Nat.succ_ne_zero visits)]
        split
        · rfl
        · rw [filledPieces_filledPieces]
      rw [pieces_eq]
      exact ih (written.fillOnce fits)

/-- What is written into a paragraph can be held. -/
theorem IsWritten.acceptsTimes (written : IsWritten segments inlines) (fits : Fits values)
    (visits : Nat) : acceptsTimes values visits inlines = true := by
  induction visits generalizing segments inlines with
  | zero => rfl
  | succ visits ih =>
      have acceptsOnce_eq : acceptsOnce values inlines = true := by
        rw [acceptsOnce, written.filledText_eq fits, Bool.or_eq_true, List.all_eq_true]
        right
        intro c cMem
        have isWritable_eq := written.writable_filledPieces fits c cMem
        rw [isWritable, Bool.and_eq_true] at isWritable_eq
        exact isWritable_eq.1
      rw [Word.acceptsTimes, acceptsOnce_eq, ih (written.fillOnce fits)]
      rfl

/-- The first visit finds the keys that the pieces name, and no later one finds any. -/
theorem IsWritten.keysFoundTimes_eq (written : IsWritten segments inlines) (fits : Fits values)
    (visits : Nat) :
    keysFoundTimes values visits inlines =
      if visits = 0 then []
      else (values.map (·.1)).filter fun key => isNamedIn segments key.toList := by
  induction visits generalizing segments inlines with
  | zero => rfl
  | succ visits ih =>
      have nothing_left : (values.map (·.1)).filter
          (fun key => isNamedIn (filledPieces values segments) key.toList) = [] := by
        rw [List.filter_eq_nil_iff]
        intro key keyMem
        rw [filledPieces, isNamedIn_substituted keyMem]
        exact Bool.false_ne_true
      rw [keysFoundTimes, written.keysFoundOnce_eq fits, ih (written.fillOnce fits), nothing_left,
        if_neg (Nat.succ_ne_zero visits), ite_self, List.append_nil]

theorem Fits.perm {values' : Values} (fits : Fits values) (perm : values'.Perm values) :
    Fits values' where
  toIsProper := fits.toIsProper.perm perm
  writable := fun entry entryMem => fits.writable entry (perm.mem_iff.mp entryMem)

/-- Filling a paragraph does not depend on the order of the values. -/
theorem IsWritten.fillTimes_eq_of_perm {values' : Values} (written : IsWritten segments inlines)
    (fits : Fits values) (perm : values'.Perm values) (visits : Nat) :
    Word.fillTimes values' visits inlines = Word.fillTimes values visits inlines := by
  induction visits generalizing segments inlines with
  | zero => rfl
  | succ visits ih =>
      have pieces_eq : filledPieces values' segments = filledPieces values segments := by
        apply List.map_congr_left
        intro segment _
        exact segment.substituted_eq_of_perm fits.toIsProper perm
      have text_eq : filledText values' inlines = filledText values inlines := by
        rw [written.filledText_eq (fits.perm perm), written.filledText_eq fits, pieces_eq]
      have once_eq : Word.fillOnce values' inlines = Word.fillOnce values inlines := by
        rw [Word.fillOnce, Word.fillOnce, isChanged, isChanged, text_eq]
      rw [Word.fillTimes, Word.fillTimes, once_eq, ih (written.fillOnce fits)]

end Stencil.Word
