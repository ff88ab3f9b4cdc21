import Stencil.Proofs.Word.Links

/-!
# Which keys are reported

A key is reported when no token of it was found.  Keys are looked for one after the other in
a text in which the keys before were replaced already.  Where the values hold no opening
braces, every token that is found has its text changed, and the text is written into the
paragraph if it has a run.  A paragraph of links alone cannot be written: its tokens are
found all the same, and so their keys are not reported.
-/

namespace Stencil.Token

variable {values : Values} {key : String} {text : List Char}

/-- A token of a key stands in a text at the turn of the key. -/
def IsFoundIn (values : Values) (key : String) (text : List Char) : Prop :=
  ∃ before value behind, values = before ++ (key, value) :: behind ∧
    holdsKey key.toList (replaceAllKeys before text) = true

theorem replaceAllKeys_cons (entry : String × String) (rest : Values) (text : List Char) :
    replaceAllKeys (entry :: rest) text =
      replaceAllKeys rest (replaceKey entry.1.toList entry.2.toList text) :=
  rfl

theorem replaceAllKeys_append (first second : Values) (text : List Char) :
    replaceAllKeys (first ++ second) text =
      replaceAllKeys second (replaceAllKeys first text) :=
  List.foldl_append

/-- The keys found are those with a token at their turn. -/
theorem mem_keysFound_iff : key ∈ keysFound values text ↔ IsFoundIn values key text := by
  induction values generalizing text with
  | nil => simp [keysFound, IsFoundIn]
  | cons entry rest ih =>
      rcases entry with ⟨own, value⟩
      have found_iff : key ∈ keysFound ((own, value) :: rest) text ↔
          (key = own ∧ holdsKey own.toList text = true) ∨
            key ∈ keysFound rest (replaceKey own.toList value.toList text) := by
        rw [keysFound]
        by_cases held : holdsKey own.toList text = true
        · simp [held]
        · simp [held]
      rw [found_iff, ih]
      constructor
      · rintro (⟨rfl, held⟩ | ⟨before, later, behind, rest_eq, held⟩)
        · exact ⟨[], value, rest, rfl, held⟩
        · exact ⟨(own, value) :: before, later, behind, by rw [rest_eq, List.cons_append], held⟩
      · rintro ⟨before, own', behind, values_eq, held⟩
        cases before with
        | nil =>
            cases values_eq
            exact .inl ⟨rfl, held⟩
        | cons entry before =>
            cases values_eq
            exact .inr ⟨before, own', behind, rfl, held⟩

theorem not_isFoundIn_of_plain (plain : openBrace ∉ text) : ¬IsFoundIn values key text := by
  rintro ⟨before, value, behind, _, held⟩
  rw [replaceAllKeys_of_plain plain, holdsKey_of_plain plain] at held
  cases held

section Count

variable {name value : List Char}

/-- A text without opening braces that is put in adds none. -/
theorem count_replaceKeyFrom_le (plain : openBrace ∉ value) (pending : Nat) (text : List Char) :
    (replaceKeyFrom name value pending text).count openBrace ≤ text.count openBrace := by
  induction text generalizing pending with
  | nil => cases pending <;> exact Nat.le_refl 0
  | cons c rest ih =>
      have rest_le := List.count_le_count_cons (a := openBrace) (b := c) (l := rest)
      cases pending with
      | succ pending => exact (ih pending).trans rest_le
      | zero =>
          rw [replaceKeyFrom]
          split
          · next length _ =>
              rw [List.count_append, List.count_eq_zero.mpr plain, Nat.zero_add]
              exact (ih (length - 1)).trans rest_le
          · rw [List.count_cons, List.count_cons]
            exact Nat.add_le_add_right (ih 0) _

/-- A token that is replaced takes an opening brace away. -/
theorem count_replaceKey_lt (plain : openBrace ∉ value) (held : holdsKey name text = true) :
    (replaceKey name value text).count openBrace < text.count openBrace := by
  induction text with
  | nil => cases held
  | cons c rest ih =>
      rw [replaceKey, replaceKeyFrom]
      split
      · next length found =>
          have opening : c = openBrace := by
            by_contra other
            rw [tokenLength?_of_ne other] at found
            cases found
          rw [List.count_append, List.count_eq_zero.mpr plain, Nat.zero_add, opening,
            List.count_cons_self]
          exact Nat.lt_succ_of_le (count_replaceKeyFrom_le plain (length - 1) rest)
      · next unfound =>
          rw [holdsKey, unfound] at held
          rw [List.count_cons, List.count_cons]
          exact Nat.add_lt_add_right (ih held) _

end Count

theorem count_replaceAllKeys_le (plain : ∀ entry ∈ values, openBrace ∉ entry.2.toList)
    (text : List Char) :
    (replaceAllKeys values text).count openBrace ≤ text.count openBrace := by
  induction values generalizing text with
  | nil => exact Nat.le_refl _
  | cons entry rest ih =>
      rcases List.forall_mem_cons.mp plain with ⟨here, later⟩
      rw [replaceAllKeys_cons]
      exact (ih later _).trans (count_replaceKeyFrom_le here 0 text)

/-- Where a token is found, a text changes. -/
theorem replaceAllKeys_ne_of_isFoundIn (plain : ∀ entry ∈ values, openBrace ∉ entry.2.toList)
    (found : IsFoundIn values key text) : replaceAllKeys values text ≠ text := by
  rcases found with ⟨before, value, behind, rfl, held⟩
  rcases List.forall_mem_append.mp plain with ⟨beforePlain, laterPlain⟩
  rcases List.forall_mem_cons.mp laterPlain with ⟨valuePlain, behindPlain⟩
  intro same
  have first_le := count_replaceAllKeys_le beforePlain text
  have turn_lt : (replaceKey key.toList value.toList (replaceAllKeys before text)).count openBrace <
      (replaceAllKeys before text).count openBrace := count_replaceKey_lt valuePlain held
  have last_le := count_replaceAllKeys_le behindPlain
    (replaceKey key.toList value.toList (replaceAllKeys before text))
  rw [replaceAllKeys_append, replaceAllKeys_cons] at same
  rw [same] at last_le
  omega

end Stencil.Token

namespace Stencil.Word

open Token

variable {values : Values} {key : String} {inlines : List Inline}

/-- A visit of a paragraph replaces a token of a key: the paragraph has a run, a token of the
key stands in its text at the turn of the key, and the text that is written into the
paragraph is the one in which the value of the key has taken its place. -/
def Replaces (values : Values) (key : String) (inlines after : List Inline) : Prop :=
  inlines.any Inline.isRun = true ∧
    ∃ before value behind text, values = before ++ (key, value) :: behind ∧
      text = replaceAllKeys before (textOf inlines).toList ∧ holdsKey key.toList text = true ∧
      after = writeInto
        (replaceAllKeys behind (replaceKey key.toList value.toList text)) inlines

theorem mem_keysFoundOnce_iff :
    key ∈ keysFoundOnce values inlines ↔ IsFoundIn values key (textOf inlines).toList := by
  unfold keysFoundOnce
  dsimp only
  split
  · exact mem_keysFound_iff
  · next noToken =>
      refine iff_of_false List.not_mem_nil (not_isFoundIn_of_plain ?_)
      simpa [mayHoldToken] using noToken

theorem fillTimes_succ (values : Values) (visits : Nat) (inlines : List Inline) :
    fillTimes values (visits + 1) inlines = fillOnce values (fillTimes values visits inlines) := by
  induction visits generalizing inlines with
  | zero => rfl
  | succ visits ih => exact ih (fillOnce values inlines)

/-- The keys found in a paragraph are those found at some visit. -/
theorem mem_keysFoundTimes_iff {visits : Nat} :
    key ∈ keysFoundTimes values visits inlines ↔
      ∃ visit < visits, IsFoundIn values key (textOf (fillTimes values visit inlines)).toList := by
  induction visits generalizing inlines with
  | zero => simp [keysFoundTimes]
  | succ visits ih =>
      rw [keysFoundTimes, List.mem_append, mem_keysFoundOnce_iff, ih, Nat.exists_lt_succ_left]
      rfl

/-- A token that is found in a paragraph with a run is replaced. -/
theorem replaces_fillOnce_iff (plain : ∀ entry ∈ values, openBrace ∉ entry.2.toList) :
    Replaces values key inlines (fillOnce values inlines) ↔
      inlines.any Inline.isRun = true ∧ IsFoundIn values key (textOf inlines).toList := by
  constructor
  · rintro ⟨hasRun, before, value, behind, _, values_eq, rfl, held, _⟩
    exact ⟨hasRun, before, value, behind, values_eq, held⟩
  · rintro ⟨hasRun, found⟩
    have differs := replaceAllKeys_ne_of_isFoundIn plain found
    have changes : isChanged values inlines = true := by
      rw [isChanged, hasRun, filledText_eq_substitutedText, Bool.and_true, bne_iff_ne]
      exact differs
    rcases found with ⟨before, value, behind, rfl, held⟩
    refine ⟨hasRun, before, value, behind, _, rfl, rfl, held, ?_⟩
    rw [fillOnce, if_pos changes, filledText_eq_substitutedText, substitutedText,
      replaceAllKeys_append, replaceAllKeys_cons]

/-- A paragraph without runs stays as it is. -/
theorem fillTimes_of_no_run (noRun : inlines.any Inline.isRun = false) (visits : Nat) :
    fillTimes values visits inlines = inlines := by
  induction visits with
  | zero => rfl
  | succ visits ih =>
      have once_eq : fillOnce values inlines = inlines := by
        simp [fillOnce, isChanged, noRun]
      rw [fillTimes, once_eq, ih]

theorem map_isRun_emptyRuns (inlines : List Inline) :
    (emptyRuns inlines).map Inline.isRun = inlines.map Inline.isRun := by
  rw [emptyRuns, List.map_map]
  apply List.map_congr_left
  intro inline _
  cases inline <;> rfl

theorem map_isRun_writeInto (text : List Char) (inlines : List Inline) :
    (writeInto text inlines).map Inline.isRun = inlines.map Inline.isRun := by
  induction inlines with
  | nil => rfl
  | cons inline rest ih =>
      cases inline with
      | run shown => rw [writeInto, List.map_cons, List.map_cons, map_isRun_emptyRuns]; rfl
      | link shown => rw [writeInto, List.map_cons, List.map_cons, ih]

/-- Runs stay runs and links stay links. -/
theorem map_isRun_fillTimes (visits : Nat) (inlines : List Inline) :
    (fillTimes values visits inlines).map Inline.isRun = inlines.map Inline.isRun := by
  induction visits generalizing inlines with
  | zero => rfl
  | succ visits ih =>
      rw [fillTimes, ih, fillOnce]
      split
      · exact map_isRun_writeInto _ inlines
      · rfl

theorem any_isRun_fillTimes (visits : Nat) (inlines : List Inline) :
    (fillTimes values visits inlines).any Inline.isRun = inlines.any Inline.isRun := by
  have flags : (fillTimes values visits inlines).map Inline.isRun = inlines.map Inline.isRun :=
    map_isRun_fillTimes visits inlines
  have anys := congrArg (List.any · id) flags
  simpa only [List.any_map, Function.id_comp] using anys

/-- A key is found in a paragraph when a visit replaces a token of it, or when the paragraph is
visited, has no run, and has a token of it in its text. -/
theorem mem_keysFoundTimes_iff_replaces (plain : ∀ entry ∈ values, openBrace ∉ entry.2.toList)
    {visits : Nat} :
    key ∈ keysFoundTimes values visits inlines ↔
      (∃ visit < visits, Replaces values key (fillTimes values visit inlines)
        (fillTimes values (visit + 1) inlines)) ∨
      0 < visits ∧ inlines.any Inline.isRun = false ∧
        IsFoundIn values key (textOf inlines).toList := by
  rw [mem_keysFoundTimes_iff]
  simp only [fillTimes_succ, replaces_fillOnce_iff plain, any_isRun_fillTimes]
  cases hasRun : inlines.any Inline.isRun with
  | true => simp
  | false =>
      simp only [fillTimes_of_no_run hasRun, Bool.false_eq_true, false_and, and_false,
        exists_false, false_or, true_and]
      constructor
      · rintro ⟨visit, visited, found⟩
        exact ⟨Nat.zero_lt_of_lt visited, found⟩
      · rintro ⟨visited, found⟩
        exact ⟨0, visited, found⟩

namespace Document

/-- What a document that is filled comes to. -/
theorem eq_of_fill? {document : Document} {filled : Filled}
    (succeeds : document.fill? values = some filled) :
    filled = {
      document := document.mapParagraphs (fillTimes values)
      unmatched := (values.map (·.1)).filter fun key =>
        !(document.keysFound values).contains key } := by
  unfold fill? at succeeds
  split at succeeds
  · cases succeeds
    rfl
  · cases succeeds

/-- Where the values hold no opening braces, a key is left out of the report exactly when some
visit of a paragraph replaces a token of it by its value, or when a token of it stands in a
paragraph that is visited and has no run, and therefore stays as it is. -/
theorem not_mem_unmatched_iff {document : Document} {filled : Filled}
    (plain : ∀ entry ∈ values, openBrace ∉ entry.2.toList)
    (succeeds : document.fill? values = some filled) :
    filled.document.paragraphs = document.paragraphs.map (changed (fillTimes values)) ∧
      ∀ key ∈ values.map (·.1), key ∉ filled.unmatched ↔
        (∃ paragraph ∈ document.paragraphs, ∃ visit < paragraph.1,
          Replaces values key (fillTimes values visit paragraph.2)
            (fillTimes values (visit + 1) paragraph.2)) ∨
        ∃ paragraph ∈ document.paragraphs, 0 < paragraph.1 ∧
          paragraph.2.any Inline.isRun = false ∧
            IsFoundIn values key (textOf paragraph.2).toList := by
  rw [eq_of_fill? succeeds]
  refine ⟨paragraphs_mapParagraphs (fillTimes values) document, fun key given => ?_⟩
  have reported_iff : key ∉ (values.map (·.1)).filter
      (fun key => !(document.keysFound values).contains key) ↔
        key ∈ document.keysFound values := by
    simp only [List.mem_filter, given, true_and, Bool.not_eq_true', List.contains_eq_mem,
      decide_eq_false_iff_not, not_not]
  rw [reported_iff, keysFound, List.mem_flatMap, ← exists_or]
  simp only [mem_keysFoundTimes_iff_replaces plain, ← and_or_left]

/-- A note with a token in a link, and with one that is cut into runs of a merged cell. -/
def linkNote : Document :=
  { body := [
      .paragraph [.link "\x7bA\x7d"],
      .table [[.cell 2 [.paragraph [.run "see \x7b", .run "B\x7d"]]]]] }

/-- Values for the note, one of which it does not ask for. -/
def linkNoteValues : Values := [("A", "a"), ("B", "b\x7d"), ("C", "c")]

theorem linkNoteValues_plain : ∀ entry ∈ linkNoteValues, openBrace ∉ entry.2.toList := by
  decide

theorem paragraphs_linkNote :
    linkNote.paragraphs = [(1, [.link "\x7bA\x7d"]), (2, [.run "see \x7b", .run "B\x7d"])] :=
  rfl

theorem not_mem_unmatched_linkNote :
    ∃ filled, linkNote.fill? linkNoteValues = some filled ∧ filled.unmatched = ["C"] ∧
      ("B" ∉ filled.unmatched ↔
        (∃ paragraph ∈ linkNote.paragraphs, ∃ visit < paragraph.1,
          Replaces linkNoteValues "B" (fillTimes linkNoteValues visit paragraph.2)
            (fillTimes linkNoteValues (visit + 1) paragraph.2)) ∨
        ∃ paragraph ∈ linkNote.paragraphs, 0 < paragraph.1 ∧
          paragraph.2.any Inline.isRun = false ∧
            IsFoundIn linkNoteValues "B" (textOf paragraph.2).toList) := by
  obtain ⟨filled, succeeds⟩ : ∃ filled, linkNote.fill? linkNoteValues = some filled := ⟨_, rfl⟩
  refine ⟨filled, succeeds, ?_, ?_⟩
  · rw [eq_of_fill? succeeds]
    decide +kernel
  · exact (not_mem_unmatched_iff linkNoteValues_plain succeeds).2 "B" (by decide)

/-- A token in a paragraph of links counts as found although nothing is replaced. -/
theorem link_token_is_not_reported :
    (∀ entry ∈ linkNoteValues, openBrace ∉ entry.2.toList) ∧
      ∃ filled, linkNote.fill? linkNoteValues = some filled ∧ "A" ∉ filled.unmatched ∧
        ¬∃ paragraph ∈ linkNote.paragraphs, ∃ visit < paragraph.1,
          Replaces linkNoteValues "A" (fillTimes linkNoteValues visit paragraph.2)
            (fillTimes linkNoteValues (visit + 1) paragraph.2) := by
  obtain ⟨filled, succeeds⟩ : ∃ filled, linkNote.fill? linkNoteValues = some filled := ⟨_, rfl⟩
  refine ⟨linkNoteValues_plain, filled, succeeds, ?_, ?_⟩
  · rw [eq_of_fill? succeeds]
    decide +kernel
  · rintro ⟨paragraph, paragraphMem, visit, visited, replaces⟩
    have found := (mem_keysFoundTimes_iff_replaces linkNoteValues_plain).mpr
      (.inl ⟨visit, visited, replaces⟩)
    have hasRun := replaces.1
    rw [any_isRun_fillTimes] at hasRun
    rw [paragraphs_linkNote, List.mem_cons, List.mem_singleton] at paragraphMem
    rcases paragraphMem with rfl | rfl
    · cases hasRun
    · exact absurd found (by decide +kernel)

/-- A note with a token behind an opening brace. -/
def bracedNote : Document :=
  { body := [.paragraph [.run "\x7b\x7bA\x7d"]] }

/-- Values of which the first closes a token of the second key. -/
def closingValues : Values := [("A", "B\x7d"), ("B", "x")]

/-- A token that counts as found need not be replaced, and the value that it is replaced by
need not be in the document that is filled: it may become part of another token. -/
theorem found_token_may_leave_no_value :
    ((∀ entry ∈ linkNoteValues, openBrace ∉ entry.2.toList) ∧
      ∃ filled, linkNote.fill? linkNoteValues = some filled ∧ "A" ∉ filled.unmatched ∧
        ¬∃ paragraph ∈ linkNote.paragraphs, ∃ visit < paragraph.1,
          Replaces linkNoteValues "A" (fillTimes linkNoteValues visit paragraph.2)
            (fillTimes linkNoteValues (visit + 1) paragraph.2)) ∧
      (∀ entry ∈ closingValues, openBrace ∉ entry.2.toList) ∧
      ∃ filled, bracedNote.fill? closingValues = some filled ∧ "A" ∉ filled.unmatched ∧
        filled.document.paragraphs = [(1, [.run "x"])] := by
  obtain ⟨filled, succeeds⟩ : ∃ filled, bracedNote.fill? closingValues = some filled := ⟨_, rfl⟩
  refine ⟨link_token_is_not_reported, by decide, filled, succeeds, ?_⟩
  rw [eq_of_fill? succeeds]
  decide +kernel

end Document

end Stencil.Word
