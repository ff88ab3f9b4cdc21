import Stencil.Proofs.Text.Split
import Stencil.Proofs.Text.Trim

/-!
# Words

A text is its words with blanks between and around them.  Two words have at least one blank between
them, and a word has none.
-/

namespace Stencil.Text

/-- A word: some characters, none of which is blank. -/
structure IsWord (word : List Char) : Prop where
  filled : word ≠ []
  unblank : ∀ c ∈ word, isBlank c = false

/-- What parts two words: blanks, of which there is at least one. -/
structure IsGap (blanks : List Char) : Prop where
  allBlank : AllBlank blanks
  filled : blanks ≠ []

/-- A text is empty or begins with a blank. -/
def EndsWord : List Char → Prop
  | [] => True
  | c :: _ => isBlank c = true

variable {blanks word behind cs : List Char}

theorem words_cons_of_isBlank {c : Char} (blank : isBlank c = true) (cs : List Char) :
    words (c :: cs) = words cs := by
  simp [words, splitWhere, blank]

theorem words_append_of_allBlank (blank : AllBlank blanks) (cs : List Char) :
    words (blanks ++ cs) = words cs := by
  induction blanks with
  | nil => rfl
  | cons c blanks ih =>
      rcases List.forall_mem_cons.mp blank with ⟨here, later⟩
      rw [List.cons_append, words_cons_of_isBlank here, ih later]

theorem words_of_allBlank (blank : AllBlank cs) : words cs = [] := by
  have words_eq := words_append_of_allBlank blank []
  rwa [List.append_nil] at words_eq

/-- A word is followed by the words behind it. -/
theorem words_append_of_isWord (isWord : IsWord word) (ends : EndsWord behind) :
    words (word ++ behind) = word :: words behind := by
  have kept (pieces : List (List Char)) : (word :: pieces).filter (fun piece => !piece.isEmpty) =
      word :: pieces.filter fun piece => !piece.isEmpty :=
    List.filter_cons_of_pos (by simpa using isWord.filled)
  cases behind with
  | nil =>
      rw [List.append_nil, words, splitWhere_of_free isWord.unblank, kept]
      rfl
  | cons c behind =>
      rw [words_cons_of_isBlank ends, words, splitWhere_append_cons isWord.unblank ends, kept, words]

theorem endsWord_dropWhile (cs : List Char) : EndsWord (cs.dropWhile fun c => !isBlank c) := by
  have stops := cs.head?_dropWhile_not fun c => !isBlank c
  cases rest : cs.dropWhile fun c => !isBlank c with
  | nil => trivial
  | cons c behind => simpa [rest, EndsWord] using stops

/-- A text is blank, or a word comes first in it. -/
theorem exists_first_word (cs : List Char) :
    AllBlank cs ∨ ∃ blanks word behind, AllBlank blanks ∧ IsWord word ∧ EndsWord behind ∧
      cs = blanks ++ word ++ behind := by
  have blank : AllBlank (cs.takeWhile isBlank) := fun c cMem => List.mem_takeWhile_imp cMem
  cases begins : cs.dropWhile isBlank with
  | nil => exact .inl (List.dropWhile_eq_nil_iff.mp begins)
  | cons c rest =>
      right
      have unblank : isBlank c = false := by
        have stops := cs.head?_dropWhile_not isBlank
        simpa [begins] using stops
      refine ⟨_, (c :: rest).takeWhile fun c => !isBlank c, _, blank, ?_,
        endsWord_dropWhile (c :: rest), ?_⟩
      · constructor
        · simp [unblank]
        · exact fun d dMem => by simpa using List.mem_takeWhile_imp dMem
      · rw [List.append_assoc, List.takeWhile_append_dropWhile, ← begins,
          List.takeWhile_append_dropWhile]

/-- The words of a text are one word and further ones exactly when it has blanks, that word and
further words behind it. -/
theorem words_eq_cons_iff {further : List (List Char)} :
    words cs = word :: further ↔ ∃ blanks behind, AllBlank blanks ∧ IsWord word ∧
      EndsWord behind ∧ words behind = further ∧ cs = blanks ++ word ++ behind := by
  constructor
  · intro words_eq
    rcases exists_first_word cs with blank | ⟨blanks, first, behind, blank, isWord, ends, rfl⟩
    · rw [words_of_allBlank blank] at words_eq
      cases words_eq
    · rw [List.append_assoc, words_append_of_allBlank blank,
        words_append_of_isWord isWord ends] at words_eq
      obtain ⟨rfl, rfl⟩ := List.cons.inj words_eq
      exact ⟨blanks, behind, blank, isWord, ends, rfl, rfl⟩
  · rintro ⟨blanks, behind, blank, isWord, ends, rfl, rfl⟩
    rw [List.append_assoc, words_append_of_allBlank blank, words_append_of_isWord isWord ends]

theorem words_eq_nil_iff : words cs = [] ↔ AllBlank cs := by
  constructor
  · intro words_eq
    rcases exists_first_word cs with blank | ⟨blanks, word, behind, blank, isWord, ends, rfl⟩
    · exact blank
    · rw [List.append_assoc, words_append_of_allBlank blank,
        words_append_of_isWord isWord ends] at words_eq
      cases words_eq
  · exact words_of_allBlank

/-- The words of a text are words, and each stands in one piece in the text. -/
theorem isWord_and_infix_of_mem_words (wordMem : word ∈ words cs) : IsWord word ∧ word <:+: cs := by
  generalize split : words cs = found at wordMem
  induction found generalizing cs with
  | nil => cases wordMem
  | cons first further ih =>
      obtain ⟨blanks, behind, _, isWord, _, later, rfl⟩ := words_eq_cons_iff.mp split
      rcases List.mem_cons.mp wordMem with rfl | inFurther
      · exact ⟨isWord, blanks, behind, rfl⟩
      · obtain ⟨otherIsWord, inBehind⟩ := ih later inFurther
        exact ⟨otherIsWord, inBehind.trans (List.suffix_append _ behind).isInfix⟩

/-- The words of a text together are the text without its blanks. -/
theorem flatten_words (cs : List Char) :
    (words cs).flatten = cs.filter fun c => !isBlank c := by
  generalize split : words cs = found
  induction found generalizing cs with
  | nil =>
      have blank := words_eq_nil_iff.mp split
      rw [List.flatten_nil, eq_comm, List.filter_eq_nil_iff]
      exact fun c cMem => by simp [blank c cMem]
  | cons first further ih =>
      obtain ⟨blanks, behind, blank, isWord, _, later, rfl⟩ := words_eq_cons_iff.mp split
      have none_left : blanks.filter (fun c => !isBlank c) = [] :=
        List.filter_eq_nil_iff.mpr fun c cMem => by simp [blank c cMem]
      have all_kept : first.filter (fun c => !isBlank c) = first :=
        List.filter_eq_self.mpr fun c cMem => by simp [isWord.unblank c cMem]
      rw [List.filter_append, List.filter_append, none_left, all_kept, List.nil_append,
        List.flatten_cons, ih behind later]

/-- Words that are joined with blanks are the words of what comes out. -/
theorem words_join {blank : Char} (parts : isBlank blank = true) {found : List (List Char)}
    (areWords : ∀ word ∈ found, IsWord word) : words (join [blank] found) = found := by
  fun_induction join [blank] found with
  | case1 => rfl
  | case2 word =>
      have ends : EndsWord [] := trivial
      have alone := words_append_of_isWord (areWords word List.mem_cons_self) ends
      rwa [List.append_nil] at alone
  | case3 word rest _ ih =>
      obtain ⟨isWord, others⟩ := List.forall_mem_cons.mp areWords
      have ends : EndsWord ([blank] ++ join [blank] rest) := parts
      rw [List.append_assoc, words_append_of_isWord isWord ends, List.singleton_append,
        words_cons_of_isBlank parts, ih others]

/-- A character before a blank is a word of its own. -/
theorem words_cons_cons_of_isBlank {c blank : Char} (unblank : isBlank c = false)
    (parts : isBlank blank = true) :
    words (c :: blank :: behind) = [c] :: words (blank :: behind) := by
  have isWord : IsWord [c] := ⟨List.cons_ne_nil c [], by simpa using unblank⟩
  have ends : EndsWord (blank :: behind) := parts
  exact words_append_of_isWord isWord ends

/-- One more character in front of two texts that begin alike and have the same words. -/
theorem words_cons_congr (c : Char) {d : Char} {behind' : List Char}
    (same : words (d :: behind) = words (d :: behind')) :
    words (c :: d :: behind) = words (c :: d :: behind') := by
  cases blank : isBlank c with
  | true => rw [words_cons_of_isBlank blank, words_cons_of_isBlank blank, same]
  | false =>
      cases next : isBlank d with
      | true => rw [words_cons_cons_of_isBlank blank next, words_cons_cons_of_isBlank blank next, same]
      | false =>
          -- the character becomes part of the first word
          have longer (text : List Char) : ∃ piece further, words (d :: text) = piece :: further ∧
              words (c :: d :: text) = (c :: piece) :: further := by
            obtain ⟨piece, pieces, pieces_eq⟩ := exists_splitWhere isBlank text
            simp [words, splitWhere, blank, next, pieces_eq]
          obtain ⟨piece, further, words_eq, longer_eq⟩ := longer behind
          obtain ⟨piece', further', words_eq', longer_eq'⟩ := longer behind'
          rw [words_eq, words_eq'] at same
          obtain ⟨rfl, rfl⟩ := List.cons.inj same
          rw [longer_eq, longer_eq']

/-- A blank beside another one makes no difference. -/
theorem words_cons_blank_cons {c blank d : Char} (parts : isBlank blank = true)
    (beside : isBlank c = true ∨ isBlank d = true) (behind : List Char) :
    words (c :: blank :: d :: behind) = words (c :: d :: behind) := by
  cases before : isBlank c with
  | true =>
      rw [words_cons_of_isBlank before, words_cons_of_isBlank before, words_cons_of_isBlank parts]
  | false =>
      have next : isBlank d = true := beside.resolve_left (by simp [before])
      rw [words_cons_cons_of_isBlank before parts, words_cons_cons_of_isBlank before next,
        words_cons_of_isBlank parts]

theorem IsGap.endsWord {gap : List Char} (isGap : IsGap gap) (rest : List Char) :
    EndsWord (gap ++ rest) := by
  rcases List.exists_cons_of_ne_nil isGap.filled with ⟨c, others, rfl⟩
  exact isGap.allBlank c List.mem_cons_self

/-- What ends a word and has another one behind blanks begins with a blank. -/
theorem isGap_of_endsWord (blank : AllBlank blanks) (isWord : IsWord word)
    (ends : EndsWord (blanks ++ word ++ behind)) : IsGap blanks := by
  refine ⟨blank, ?_⟩
  rintro rfl
  rcases List.exists_cons_of_ne_nil isWord.filled with ⟨c, others, rfl⟩
  have unblank := isWord.unblank c List.mem_cons_self
  rw [show isBlank c = true from ends] at unblank
  cases unblank

/-- A text of three words has these with gaps between them and blanks around. -/
theorem words_eq_three_iff {first second third : List Char} :
    words cs = [first, second, third] ↔ IsWord first ∧ IsWord second ∧ IsWord third ∧
      ∃ front gap gap' back, AllBlank front ∧ IsGap gap ∧ IsGap gap' ∧ AllBlank back ∧
        cs = front ++ first ++ (gap ++ second ++ (gap' ++ third ++ back)) := by
  constructor
  · intro words_eq
    obtain ⟨front, afterFirst, frontBlank, firstWord, firstEnds, further_eq, rfl⟩ :=
      words_eq_cons_iff.mp words_eq
    obtain ⟨gap, afterSecond, gapBlank, secondWord, secondEnds, last_eq, rfl⟩ :=
      words_eq_cons_iff.mp further_eq
    obtain ⟨gap', back, gapBlank', thirdWord, _, none_left, rfl⟩ := words_eq_cons_iff.mp last_eq
    exact ⟨firstWord, secondWord, thirdWord, front, gap, gap', back, frontBlank,
      isGap_of_endsWord gapBlank secondWord firstEnds,
      isGap_of_endsWord gapBlank' thirdWord secondEnds, words_eq_nil_iff.mp none_left, rfl⟩
  · rintro ⟨firstWord, secondWord, thirdWord, front, gap, gap', back, frontBlank, isGap, isGap',
      backBlank, rfl⟩
    -- the words are read from the last one on
    have backEnds : EndsWord back := by
      cases back with
      | nil => trivial
      | cons c back => exact backBlank c List.mem_cons_self
    have last_eq : words (gap' ++ third ++ back) = [third] :=
      words_eq_cons_iff.mpr
        ⟨gap', back, isGap'.allBlank, thirdWord, backEnds, words_of_allBlank backBlank, rfl⟩
    have further_eq : words (gap ++ second ++ (gap' ++ third ++ back)) = [second, third] := by
      refine words_eq_cons_iff.mpr ⟨gap, _, isGap.allBlank, secondWord, ?_, last_eq, rfl⟩
      rw [List.append_assoc]
      exact isGap'.endsWord _
    refine words_eq_cons_iff.mpr ⟨front, _, frontBlank, firstWord, ?_, further_eq, rfl⟩
    rw [List.append_assoc]
    exact isGap.endsWord _

end Stencil.Text
