import Mathlib.Data.List.Chain
import Stencil.Proofs.Placeholder.Label
import Stencil.Proofs.Text.Words

/-!
# Display names

The words of a display name are numbers and capitalised words with single blanks between them.  A
text of such words has no boundary inside of a word, so a display name is made of itself.  Its
words are those of the label, up to case, and it makes no difference whether what is no ASCII letter
or digit is blanked before the label is made or after.
-/

namespace Stencil.Wording

open Text

/-- A word of a display name: a number, or a capital with small letters behind it. -/
inductive IsNameWord : List Char → Prop where
  | number {digits : List Char} (filled : digits ≠ [])
      (digit : ∀ c ∈ digits, isAsciiDigit c = true) : IsNameWord digits
  | capitalised {c : Char} {rest : List Char} (capital : isCapital c = true)
      (small : ∀ d ∈ rest, isSmall d = true) : IsNameWord (c :: rest)

/-- Tells whether a character is kept in a display name: an ASCII letter or digit. -/
def isKept (c : Char) : Bool :=
  isLetter c || isAsciiDigit c

/-- A character, or a blank in the place of one that is not kept. -/
def keptOrBlank (c : Char) : Char :=
  if isKept c then c else ' '

/-- Words in small letters. -/
def uncased (found : List (List Char)) : List (List Char) :=
  found.map (·.map asciiLower)

variable {c : Char} {cs word : List Char}

theorem blankOthers_eq (cs : List Char) : blankOthers cs = cs.map keptOrBlank :=
  rfl

theorem keptOrBlank_of_isKept (kept : isKept c = true) : keptOrBlank c = c := by
  rw [keptOrBlank, if_pos kept]

theorem keptOrBlank_of_not_isKept (dropped : isKept c = false) : keptOrBlank c = ' ' := by
  rw [keptOrBlank, if_neg (Bool.eq_false_iff.mp dropped)]

theorem isBlank_of_isKept (kept : isKept c = true) : isBlank c = false := by
  rw [isKept, Bool.or_eq_true] at kept
  rcases kept with letter | digit
  · exact isBlank_of_isLetter letter
  · exact isBlank_of_isAsciiDigit digit

/-! ### The words of a name -/

theorem IsNameWord.isKept (isNameWord : IsNameWord word) : ∀ c ∈ word, isKept c = true := by
  intro c cMem
  cases isNameWord with
  | number _ digit => rw [Wording.isKept, digit c cMem, Bool.or_true]
  | capitalised capital small =>
      rw [Wording.isKept, Bool.or_eq_true]
      rcases List.mem_cons.mp cMem with rfl | later
      · exact .inl (isLetter_of_isCapital capital)
      · exact .inl (isLetter_of_isSmall (small c later))

theorem IsNameWord.isWord (isNameWord : IsNameWord word) : IsWord word where
  filled := by
    cases isNameWord with
    | number filled _ => exact filled
    | capitalised _ _ => exact List.cons_ne_nil _ _
  unblank c cMem := isBlank_of_isKept (isNameWord.isKept c cMem)

/-- Letters become a capitalised word. -/
theorem isNameWord_capitalise_of_letters (filled : word ≠ [])
    (letters : ∀ c ∈ word, isLetter c = true) : IsNameWord (capitalise word) := by
  obtain ⟨c, rest, rfl⟩ := List.exists_cons_of_ne_nil filled
  obtain ⟨first, others⟩ := List.forall_mem_cons.mp letters
  refine .capitalised (isCapital_asciiUpper first) fun d dMem => ?_
  obtain ⟨e, eMem, rfl⟩ := List.mem_map.mp dMem
  exact isSmall_asciiLower (others e eMem)

theorem capitalise_of_digits (digits : ∀ c ∈ word, isAsciiDigit c = true) :
    capitalise word = word := by
  have kept (c : Char) (cMem : c ∈ word) : asciiUpper c = c ∧ asciiLower c = c := by
    have noLetter := isLetter_of_isDecimal (isDecimal_of_isAsciiDigit (digits c cMem))
    rw [isLetter, Bool.or_eq_false_iff] at noLetter
    exact ⟨asciiUpper_of_not_small noLetter.2, asciiLower_of_not_capital noLetter.1⟩
  cases word with
  | nil => rfl
  | cons c rest =>
      rw [capitalise, (kept c List.mem_cons_self).1, List.map_congr_left
        fun d dMem => (kept d (List.mem_cons_of_mem c dMem)).2, List.map_id']

/-- A word of a name is capitalised already. -/
theorem IsNameWord.capitalise_eq (isNameWord : IsNameWord word) : capitalise word = word := by
  cases isNameWord with
  | number _ digit => exact capitalise_of_digits digit
  | capitalised capital small =>
      rw [capitalise, asciiUpper_of_not_small (isSmall_of_isCapital capital), List.map_congr_left
        fun d dMem => asciiLower_of_not_capital (isCapital_of_isSmall (small d dMem)), List.map_id']

theorem map_asciiLower_capitalise (word : List Char) :
    (capitalise word).map asciiLower = word.map asciiLower := by
  cases word with
  | nil => rfl
  | cons c rest => simp [capitalise, asciiLower_asciiUpper, asciiLower_asciiLower]

theorem uncased_map_capitalise (found : List (List Char)) :
    uncased (found.map capitalise) = uncased found := by
  simp only [uncased, List.map_map, Function.comp_def, map_asciiLower_capitalise]

/-! ### Neighbours -/

/-- Neighbours that are a letter and a digit. -/
def Meet (c d : Char) : Prop :=
  isLetter c = true ∧ isDecimal d = true ∨ isDecimal c = true ∧ isLetter d = true

/-- After a pass there are no neighbours left that it parts. -/
theorem isChain_partWhere {parts : Rule} {related : Char → Char → Prop}
    (before_blank : ∀ c, related c ' ') (after_blank : ∀ d, related ' ' d)
    (whole : ∀ c d behind, parts c d behind = false → related c d) (cs : List Char) :
    (partWhere parts cs).IsChain related := by
  fun_induction partWhere parts cs with
  | case1 c d rest _ ih =>
      obtain ⟨behind, parted_eq, _⟩ := partWhere_eq_cons parts d rest
      rw [parted_eq] at ih ⊢
      exact .cons_cons (before_blank c) (.cons_cons (after_blank d) ih)
  | case2 c d rest together ih =>
      obtain ⟨behind, parted_eq, _⟩ := partWhere_eq_cons parts d rest
      rw [parted_eq] at ih ⊢
      exact .cons_cons (whole c d _ (Bool.eq_false_iff.mpr together)) ih
  | case3 cs short =>
      rcases eq_nil_or_singleton short with rfl | ⟨c, rfl⟩
      · exact .nil
      · exact .singleton c

/-- A pass keeps a text in which there is nothing to part. -/
theorem partWhere_of_isChain {parts : Rule}
    (chain : cs.IsChain fun c d => ∀ behind, parts c d behind = false) :
    partWhere parts cs = cs := by
  fun_induction partWhere parts cs with
  | case1 c d rest parted _ =>
      rw [(List.isChain_cons_cons.mp chain).1] at parted
      cases parted
  | case2 c d rest _ ih => rw [ih (List.isChain_cons_cons.mp chain).2]
  | case3 => rfl

theorem isChain_join {related : Char → Char → Prop} (before_blank : ∀ c, related c ' ')
    (after_blank : ∀ d, related ' ' d) {found : List (List Char)}
    (chains : ∀ word ∈ found, word.IsChain related) : (join [' '] found).IsChain related := by
  fun_induction join [' '] found with
  | case1 => exact .nil
  | case2 word => exact chains word List.mem_cons_self
  | case3 word rest _ ih =>
      obtain ⟨here, later⟩ := List.forall_mem_cons.mp chains
      rw [List.append_assoc, List.isChain_append]
      refine ⟨here, ?_, ?_⟩
      · rw [List.singleton_append, List.isChain_cons]
        exact ⟨fun d _ => after_blank d, ih later⟩
      · intro c _ d dMem
        cases dMem
        exact before_blank c

/-- Where no letter meets a digit, what is kept is letters only or digits only. -/
theorem letters_or_digits_of_isChain (kept : ∀ c ∈ word, isKept c = true)
    (chain : word.IsChain fun c d => ¬Meet c d) :
    (∀ c ∈ word, isLetter c = true) ∨ ∀ c ∈ word, isAsciiDigit c = true := by
  induction word with
  | nil => simp
  | cons c rest ih =>
      obtain ⟨here, later⟩ := List.forall_mem_cons.mp kept
      rw [isKept, Bool.or_eq_true] at here
      simp only [List.forall_mem_cons]
      cases rest with
      | nil => simpa using here
      | cons d rest =>
          obtain ⟨apart, behind⟩ := List.isChain_cons_cons.mp chain
          rcases here with letter | digit
          · rcases ih later behind with letters | digits
            · exact .inl ⟨letter, letters⟩
            · have next := isDecimal_of_isAsciiDigit (digits d List.mem_cons_self)
              exact absurd (.inl ⟨letter, next⟩) apart
          · rcases ih later behind with letters | digits
            · have next := letters d List.mem_cons_self
              exact absurd (.inr ⟨isDecimal_of_isAsciiDigit digit, next⟩) apart
            · exact .inr ⟨digit, digits⟩

theorem not_meet_of_not_isBoundary {c d : Char} {behind : Option Char}
    (together : isBoundary c d behind = false) : ¬Meet c d := by
  simp only [isBoundary, Bool.or_eq_false_iff] at together
  obtain ⟨⟨_, noDigit⟩, noLetter⟩ := together
  rintro (⟨letter, digit⟩ | ⟨digit, letter⟩)
  · simp [letter, digit] at noDigit
  · simp [letter, digit] at noLetter

theorem isChain_label (cs : List Char) : (label cs).IsChain fun c d => ¬Meet c d := by
  rw [label_eq]
  apply isChain_partWhere
  · simp [Meet]
  · simp [Meet]
  · exact fun _ _ _ => not_meet_of_not_isBoundary

/-- There is no boundary inside the word of a name. -/
theorem IsNameWord.isChain (isNameWord : IsNameWord word) :
    word.IsChain fun c d => ∀ behind, isBoundary c d behind = false := by
  cases isNameWord with
  | number _ digit =>
      apply List.Pairwise.isChain
      apply List.pairwise_of_forall_mem_list
      intro c cMem d dMem behind
      have noLetter (e : Char) (eMem : e ∈ word) : isCapital e = false ∧ isSmall e = false := by
        have noLetter := isLetter_of_isDecimal (isDecimal_of_isAsciiDigit (digit e eMem))
        rwa [isLetter, Bool.or_eq_false_iff] at noLetter
      simp [isBoundary, isLetter, noLetter c cMem, noLetter d dMem]
  | @capitalised c rest capital small =>
      have together {x d : Char} (letter : isLetter x = true) (dMem : d ∈ rest)
          (behind : Option Char) : isBoundary x d behind = false := by
        have next := isLetter_of_isSmall (small d dMem)
        simp [isBoundary, isCapital_of_isSmall (small d dMem), isDecimal_of_isLetter next,
          isDecimal_of_isLetter letter]
      apply List.Pairwise.isChain
      rw [List.pairwise_cons]
      constructor
      · exact fun d dMem => together (isLetter_of_isCapital capital) dMem
      · apply List.pairwise_of_forall_mem_list
        exact fun x xMem d dMem => together (isLetter_of_isSmall (small x xMem)) dMem

/-! ### Display names -/

theorem isKept_of_mem_words (wordMem : word ∈ words (label (blankOthers cs))) :
    ∀ c ∈ word, isKept c = true := by
  intro c cMem
  obtain ⟨isWord, inLabel⟩ := isWord_and_infix_of_mem_words wordMem
  have unblank := isWord.unblank c cMem
  have inBoth : c ∈ (label (blankOthers cs)).filter fun d => !isBlank d :=
    List.mem_filter.mpr ⟨inLabel.subset cMem, by simp [unblank]⟩
  rw [label_eq, filter_partWhere rfl, blankOthers_eq] at inBoth
  obtain ⟨d, _, rfl⟩ := List.mem_map.mp (List.mem_filter.mp inBoth).1
  cases kept : isKept d with
  | true => rwa [keptOrBlank_of_isKept kept]
  | false =>
      rw [keptOrBlank_of_not_isKept kept] at unblank
      cases unblank

/-- The words of a label are numbers and words of letters, so their capitalised forms are words of
a name. -/
theorem isNameWord_of_mem_words (wordMem : word ∈ words (label (blankOthers cs))) :
    IsNameWord (capitalise word) := by
  obtain ⟨isWord, inLabel⟩ := isWord_and_infix_of_mem_words wordMem
  have apart := List.IsChain.infix (isChain_label _) inLabel
  rcases letters_or_digits_of_isChain (isKept_of_mem_words wordMem) apart with letters | digits
  · exact isNameWord_capitalise_of_letters isWord.filled letters
  · rw [capitalise_of_digits digits]
    exact .number isWord.filled digits

/-- A text of words of a name is its own display name. -/
theorem displayName_join {found : List (List Char)} (areNameWords : ∀ word ∈ found, IsNameWord word) :
    displayName (join [' '] found) = join [' '] found := by
  have blanked : blankOthers (join [' '] found) = join [' '] found := by
    rw [blankOthers_eq]
    refine (List.map_congr_left fun c cMem => ?_).trans (List.map_id _)
    rcases mem_of_mem_join cMem with rfl | ⟨word, wordMem, inWord⟩
    · exact keptOrBlank_of_not_isKept (by decide)
    · exact keptOrBlank_of_isKept ((areNameWords word wordMem).isKept c inWord)
  have labelled : label (join [' '] found) = join [' '] found := by
    rw [label_eq]
    apply partWhere_of_isChain
    exact isChain_join (by simp [isBoundary]) (by simp [isBoundary])
      fun word wordMem => (areNameWords word wordMem).isChain
  have capitalised : found.map capitalise = found :=
    (List.map_congr_left fun word wordMem => (areNameWords word wordMem).capitalise_eq).trans
      (List.map_id found)
  rw [displayName, blanked, labelled,
    words_join rfl fun word wordMem => (areNameWords word wordMem).isWord, capitalised]

theorem filter_blankOthers (cs : List Char) :
    (blankOthers cs).filter (fun c => !isBlank c) = cs.filter isKept := by
  induction cs with
  | nil => rfl
  | cons c rest ih =>
      rw [blankOthers_eq] at ih ⊢
      rw [List.map_cons]
      cases kept : isKept c with
      | true =>
          rw [keptOrBlank_of_isKept kept, List.filter_cons_of_pos kept, ← ih,
            List.filter_cons_of_pos (by simp [isBlank_of_isKept kept])]
      | false =>
          have dropped : (c :: rest).filter isKept = rest.filter isKept :=
            List.filter_cons_of_neg (by simp [kept])
          rw [keptOrBlank_of_not_isKept kept, dropped, ← ih, List.filter_cons_of_neg (by decide)]

theorem isSmall_keptOrBlank (c : Char) : isSmall (keptOrBlank c) = isSmall c := by
  cases kept : isKept c with
  | true => rw [keptOrBlank_of_isKept kept]
  | false =>
      rw [isKept, isLetter, Bool.or_eq_false_iff, Bool.or_eq_false_iff] at kept
      rw [keptOrBlank, if_neg (by simp [isKept, isLetter, kept]), kept.1.2, isSmall_space]

/-- Blanking what stands behind neighbours does not make or hide a boundary between them. -/
theorem isBoundary_map_keptOrBlank (c d : Char) (behind : Option Char) :
    isBoundary c d (behind.map keptOrBlank) = isBoundary c d behind := by
  cases behind with
  | none => rfl
  | some e => simp [isBoundary, isSmall_keptOrBlank]

/-- Neighbours that are both kept are parted as before; where a blank stands in the place of one of
them, there is nothing to part any more. -/
theorem isBoundary_blanked (c d : Char) (rest : List Char) :
    isBoundary (keptOrBlank c) (keptOrBlank d) (rest.map keptOrBlank).head? =
        isBoundary c d rest.head? ∨
      isBoundary (keptOrBlank c) (keptOrBlank d) (rest.map keptOrBlank).head? = false ∧
        (isBlank (keptOrBlank c) = true ∨ isBlank (keptOrBlank d) = true) := by
  cases first : isKept c with
  | false =>
      right
      rw [keptOrBlank_of_not_isKept first]
      exact ⟨isUndisturbed_isBoundary.after_blank _ _, .inl (by decide)⟩
  | true =>
      cases second : isKept d with
      | false =>
          right
          rw [keptOrBlank_of_not_isKept second]
          exact ⟨isUndisturbed_isBoundary.before_blank _ _, .inr (by decide)⟩
      | true =>
          left
          rw [keptOrBlank_of_isKept first, keptOrBlank_of_isKept second, List.head?_map,
            isBoundary_map_keptOrBlank]

/-- Whether what is not kept is blanked before a label is made or after makes no difference to the
words. -/
theorem words_blankOthers_label (cs : List Char) :
    words (blankOthers (label cs)) = words (label (blankOthers cs)) := by
  simp only [label_eq, blankOthers_eq]
  fun_induction partWhere isBoundary cs with
  | case1 c d rest parted ih =>
      obtain ⟨behind, parted_eq, _⟩ := partWhere_eq_cons isBoundary d rest
      obtain ⟨behind', parted_eq', _⟩ :=
        partWhere_eq_cons isBoundary (keptOrBlank d) (rest.map keptOrBlank)
      rw [parted_eq, List.map_cons, List.map_cons, parted_eq'] at ih
      rw [parted_eq]
      simp only [List.map_cons, keptOrBlank_of_not_isKept (show isKept ' ' = false by decide)]
      -- if the boundary is gone, there is a blank in the place of a neighbour
      rcases isBoundary_blanked c d rest with same | ⟨lost, beside⟩
      · rw [partWhere_of_parts (same.trans parted), parted_eq']
        exact words_cons_congr _ (words_cons_congr ' ' ih)
      · rw [partWhere_of_not_parts lost, parted_eq', words_cons_blank_cons (by decide) beside]
        exact words_cons_congr _ ih
  | case2 c d rest together ih =>
      obtain ⟨behind, parted_eq, _⟩ := partWhere_eq_cons isBoundary d rest
      obtain ⟨behind', parted_eq', _⟩ :=
        partWhere_eq_cons isBoundary (keptOrBlank d) (rest.map keptOrBlank)
      rw [parted_eq, List.map_cons, List.map_cons, parted_eq'] at ih
      -- blanking makes no new boundary
      have together' : isBoundary (keptOrBlank c) (keptOrBlank d)
          (rest.map keptOrBlank).head? = false := by
        rcases isBoundary_blanked c d rest with same | ⟨lost, _⟩
        · exact same.trans (Bool.eq_false_iff.mpr together)
        · exact lost
      rw [parted_eq, List.map_cons, List.map_cons, List.map_cons, List.map_cons,
        partWhere_of_not_parts together', parted_eq']
      exact words_cons_congr _ ih
  | case3 cs short =>
      have short' : ∀ c d rest, cs.map keptOrBlank ≠ c :: d :: rest := by
        intro c d rest map_eq
        obtain ⟨c', tail, rfl, _, tail_eq⟩ := List.map_eq_cons_iff.mp map_eq
        obtain ⟨d', rest', rfl, _, _⟩ := List.map_eq_cons_iff.mp tail_eq
        exact short c' d' rest' rfl
      rw [partWhere_of_short short']

/-- A display name is its words with single blanks between them; each is a number or a capital with
small letters behind it.  Up to case, the name holds the ASCII letters and digits of its segment in
their order, and its words are those of the segment's label with all else blanked, before or after
labels are made.  A display name is its own display name. -/
theorem displayName_is_normal (segment : String) :
    (displayNameOf segment).toList = join [' '] (words (displayNameOf segment).toList) ∧
      (∀ word ∈ words (displayNameOf segment).toList, IsNameWord word) ∧
      ((displayNameOf segment).toList.filter (· != ' ')).map asciiLower =
        (segment.toList.filter isKept).map asciiLower ∧
      displayNameOf (displayNameOf segment) = displayNameOf segment ∧
      uncased (words (displayNameOf segment).toList) =
        uncased (words (label (blankOthers segment.toList))) ∧
      uncased (words (displayNameOf segment).toList) =
        uncased (words (blankOthers (label segment.toList))) := by
  set found := words (label (blankOthers segment.toList)) with found_eq
  have areNameWords : ∀ word ∈ found.map capitalise, IsNameWord word := by
    intro word wordMem
    obtain ⟨raw, rawMem, rfl⟩ := List.mem_map.mp wordMem
    exact isNameWord_of_mem_words rawMem
  have areWords : ∀ word ∈ found.map capitalise, IsWord word :=
    fun word wordMem => (areNameWords word wordMem).isWord
  have chars : (displayNameOf segment).toList = join [' '] (found.map capitalise) :=
    String.toList_ofList
  have words_eq : words (displayNameOf segment).toList = found.map capitalise := by
    rw [chars, words_join rfl areWords]
  refine ⟨by rw [words_eq, chars], by rwa [words_eq], ?_, ?_, ?_, ?_⟩
  · have noSpace : (found.map capitalise).flatten.filter (· != ' ') =
        (found.map capitalise).flatten := by
      refine List.filter_eq_self.mpr fun c cMem => ?_
      obtain ⟨word, wordMem, inWord⟩ := List.mem_flatten.mp cMem
      have unblank := (areWords word wordMem).unblank c inWord
      rw [bne_iff_ne]
      rintro rfl
      cases unblank
    calc
      ((displayNameOf segment).toList.filter (· != ' ')).map asciiLower
      _ = (uncased (found.map capitalise)).flatten := by
        rw [chars, filter_join rfl, noSpace, uncased, List.map_flatten]
      _ = found.flatten.map asciiLower := by
        rw [uncased_map_capitalise, uncased, List.map_flatten]
      _ = (segment.toList.filter isKept).map asciiLower := by
        rw [found_eq, flatten_words, label_eq, filter_partWhere rfl, filter_blankOthers]
  · rw [displayNameOf, mapChars, chars, displayName_join areNameWords, ← chars, String.ofList_toList]
  · rw [words_eq, uncased_map_capitalise]
  · rw [words_eq, uncased_map_capitalise, words_blankOthers_label]

end Stencil.Wording
