import Stencil.Proofs.Placeholder.TokenText

/-!
# Texts that no key reads

Keys are replaced one after the other, so a text that is put in for one key is there when the
next one is looked for.  A text is inert towards a key when it is part of no token of the key,
whatever stands around it.  A text that is not inert becomes part of a token in a text in which no
token of the key was.
-/

namespace Stencil.Token

open Stencil.Text

variable {key value : List Char}

/-- Wherever a text is put in, it is part of no token of a key. -/
def IsInert (key value : List Char) : Prop :=
  ∀ before after, holdsKey key (before ++ (value ++ after)) = true →
    holdsKey key before = true ∨ holdsKey key after = true

section Overlap

variable {whole value before middle after : List Char}

/-- A text lies over another one: they share the piece in the middle, and no two pieces before it
or behind it stand side by side. -/
structure LiesOver (whole value before middle after : List Char) : Prop where
  whole_eq : whole = before ++ (middle ++ after)
  value_eq : ∃ lead trail, value = lead ++ (middle ++ trail) ∧ (before = [] ∨ lead = []) ∧
    (after = [] ∨ trail = [])
  meets : middle ≠ [] ∨ before ≠ [] ∧ after ≠ []

/-- Of a text that stands in three pieces, the piece in the middle is met, unless the text stands
in the first or in the last one. -/
theorem exists_liesOver {front behind : List Char} (filled : whole ≠ [])
    (text_eq : before ++ (value ++ after) = front ++ (whole ++ behind)) :
    (∃ rest, before = front ++ (whole ++ rest)) ∨ (∃ rest, after = rest ++ (whole ++ behind)) ∨
      ∃ first middle last, LiesOver whole value first middle last := by
  -- where the text begins, and from there where it ends
  rcases List.append_eq_append_iff.mp text_eq with ⟨skipped, rfl, rest_eq⟩ | ⟨part, rfl, rest_eq⟩
  · rcases List.append_eq_append_iff.mp rest_eq with ⟨more, rfl, rfl⟩ | ⟨part, rfl, whole_eq⟩
    · exact .inr (.inl ⟨more, rfl⟩)
    · by_cases empty : part = []
      · exact .inr (.inl ⟨[], by simpa [empty] using whole_eq.symm⟩)
      rcases List.append_eq_append_iff.mp whole_eq with ⟨more, rfl, _⟩ | ⟨last, rfl, _⟩
      · exact .inr (.inr ⟨[], whole, [], by simp, ⟨skipped, more, rfl, .inl rfl, .inl rfl⟩,
          .inl filled⟩)
      · exact .inr (.inr ⟨[], part, last, rfl, ⟨skipped, [], by simp, .inl rfl, .inr rfl⟩,
          .inl empty⟩)
  · rcases List.append_eq_append_iff.mp rest_eq with ⟨more, rfl, _⟩ | ⟨reached, rfl, value_eq⟩
    · exact .inl ⟨more, rfl⟩
    · by_cases none : reached = []
      · exact .inl ⟨[], by simp [none]⟩
      rcases List.append_eq_append_iff.mp value_eq with ⟨last, rfl, rfl⟩ | ⟨trail, rfl, _⟩
      · by_cases empty : value = []
        · by_cases leading : part = []
          · exact .inr (.inl ⟨[], by simp [empty, leading]⟩)
          · exact .inr (.inr ⟨part, value, last, rfl, ⟨[], [], by simp, .inr rfl, .inr rfl⟩,
              .inr ⟨leading, by simpa [empty] using none⟩⟩)
        · exact .inr (.inr ⟨part, value, last, rfl, ⟨[], [], by simp, .inr rfl, .inr rfl⟩,
            .inl empty⟩)
      · exact .inr (.inr ⟨part, reached, [], by simp, ⟨[], trail, rfl, .inr rfl, .inl rfl⟩,
          .inl none⟩)

theorem LiesOver.ne_whole (lies : LiesOver whole value before middle after) :
    before ≠ whole ∧ after ≠ whole := by
  have lengths := congrArg List.length lies.whole_eq
  simp only [List.length_append] at lengths
  have meets : 0 < middle.length ∨ 0 < before.length ∧ 0 < after.length := by
    simpa only [List.length_pos_iff] using lies.meets
  constructor
  · rintro rfl
    omega
  · rintro rfl
    omega

end Overlap

section Cut

variable {token : Segment} {inside before middle after : List Char}

/-- Around a piece in the middle stands a token, with nothing where nothing was: no closing brace
before the piece and no opening brace behind it. -/
def HasCut (key before middle after : List Char) : Prop :=
  ∃ before' after', closeBrace ∉ before' ∧ openBrace ∉ after' ∧ (before = [] → before' = []) ∧
    (after = [] → after' = []) ∧ holdsKey key (before' ++ (middle ++ after')) = true

theorem unclosed_of_prefix (braceFree : BraceFree inside) {opening : List Char}
    (opens : closeBrace ∉ opening) (front : before <+: opening ++ inside) : closeBrace ∉ before :=
  fun closing => (List.mem_append.mp (front.subset closing)).elim opens braceFree.closeBrace_notMem

theorem unopened_of_suffix (braceFree : BraceFree inside) {closing : List Char}
    (closes : openBrace ∉ closing) (behind : after <:+ inside ++ closing) : openBrace ∉ after :=
  fun opening => (List.mem_append.mp (behind.subset opening)).elim braceFree.openBrace_notMem closes

theorem hasCut_of_token (isName : IsName key) (isToken : IsTokenOf key (.token inside))
    (lies : LiesOver (Segment.token inside).text value before middle after) :
    HasCut key before middle after := by
  have held := holdsKey_text isName isToken [] []
  rw [List.nil_append, List.append_nil, lies.whole_eq] at held
  have front : before <+: [openBrace] ++ inside :=
    (List.prefix_concat_iff.mp ⟨_, lies.whole_eq.symm⟩).resolve_left lies.ne_whole.1
  have isSuffix : after <:+ (Segment.token inside).text :=
    ⟨before ++ middle, by rw [lies.whole_eq, List.append_assoc]⟩
  have behind : after <:+ inside ++ [closeBrace] :=
    (List.suffix_cons_iff.mp isSuffix).resolve_left lies.ne_whole.2
  have braceFree := isToken.proper.1
  exact ⟨before, after, unclosed_of_prefix braceFree (by decide) front,
    unopened_of_suffix braceFree (by decide) behind, id, id, held⟩

/-- Of double braces the inner ones do. -/
theorem hasCut_of_doubled (isName : IsName key) (isToken : IsTokenOf key (.doubled inside))
    (lies : LiesOver (Segment.doubled inside).text value before middle after) :
    HasCut key before middle after := by
  have braceFree := isToken.proper.1
  have inner := isToken.of_doubled
  have held := holdsKey_text isName isToken [] []
  rw [List.nil_append, List.append_nil, lies.whole_eq] at held
  have text_eq : (Segment.doubled inside).text =
      ([openBrace, openBrace] ++ inside ++ [closeBrace]) ++ [closeBrace] := by
    simp [Segment.text_doubled]
  have isPrefix : before <+: ([openBrace, openBrace] ++ inside ++ [closeBrace]) ++ [closeBrace] :=
    text_eq ▸ ⟨_, lies.whole_eq.symm⟩
  have isSuffix : after <:+ (Segment.doubled inside).text :=
    ⟨before ++ middle, by rw [lies.whole_eq, List.append_assoc]⟩
  have front := (List.prefix_concat_iff.mp isPrefix).resolve_left (text_eq ▸ lies.ne_whole.1)
  have behind : after <:+ [openBrace] ++ (inside ++ [closeBrace, closeBrace]) :=
    (List.suffix_cons_iff.mp isSuffix).resolve_left lies.ne_whole.2
  rcases List.prefix_concat_iff.mp front with rfl | front
  · -- only the second closing brace is left
    have rest_eq : [closeBrace] = middle ++ after :=
      List.append_cancel_left (text_eq.symm.trans lies.whole_eq)
    have suffix : after <:+ [] ++ [closeBrace] := rest_eq ▸ List.suffix_append middle after
    refine ⟨[openBrace] ++ inside, after, ?_, ?_, by simp, id, ?_⟩
    · exact unclosed_of_prefix braceFree (by decide) List.prefix_rfl
    · exact unopened_of_suffix (by simp [BraceFree]) (by decide) suffix
    · rw [← rest_eq]
      simpa [Segment.text_token] using holdsKey_text isName inner [] []
  · have unclosed := unclosed_of_prefix braceFree (by decide) front
    rcases List.suffix_cons_iff.mp behind with rfl | behind
    · -- only the first opening brace is left
      have rest_eq : [openBrace] = before ++ middle := by
        have whole_eq := lies.whole_eq
        rw [← List.append_assoc] at whole_eq
        exact List.append_cancel_right whole_eq
      refine ⟨before, inside ++ [closeBrace, closeBrace], unclosed, ?_, id, by simp, ?_⟩
      · exact unopened_of_suffix braceFree (by decide) List.suffix_rfl
      · rw [← List.append_assoc, ← rest_eq]
        simpa [Segment.text_token] using holdsKey_text isName inner [] [closeBrace]
    · exact ⟨before, after, unclosed, unopened_of_suffix braceFree (by decide) behind, id, id, held⟩

theorem IsTokenOf.hasCut (isName : IsName key) (isToken : IsTokenOf key token)
    (lies : LiesOver token.text value before middle after) : HasCut key before middle after := by
  cases token with
  | literal text => cases isToken.named
  | token inside => exact hasCut_of_token isName isToken lies
  | doubled inside => exact hasCut_of_doubled isName isToken lies

/-- A token that lies over a text stands in the text when the rest of the token is put around it.
Of the rest, no closing brace is needed before the text and no opening brace behind it. -/
theorem IsTokenOf.exists_around (isName : IsName key) (isToken : IsTokenOf key token)
    (lies : LiesOver token.text value before middle after) :
    ∃ before after, closeBrace ∉ before ∧ openBrace ∉ after ∧
      holdsKey key (before ++ (value ++ after)) = true := by
  obtain ⟨before', after', unclosed, unopened, beforeNil, afterNil, held⟩ :=
    isToken.hasCut isName lies
  obtain ⟨lead, trail, rfl, leading, trailing⟩ := lies.value_eq
  refine ⟨before', after', unclosed, unopened, ?_⟩
  have within := holdsKey_infix isName held lead trail
  rcases leading with rfl | rfl
  · rcases trailing with rfl | rfl
    · simpa [beforeNil rfl, afterNil rfl] using within
    · simpa [beforeNil rfl] using within
  · rcases trailing with rfl | rfl
    · simpa [afterNil rfl] using within
    · simpa using within

/-- No token lies over an inert text. -/
theorem IsInert.not_liesOver (isName : IsName key) (inert : IsInert key value)
    (isToken : IsTokenOf key token) : ¬LiesOver token.text value before middle after := by
  intro lies
  obtain ⟨before', after', unclosed, unopened, held⟩ := isToken.exists_around isName lies
  rcases inert before' after' held with inFront | behind
  · rw [holdsKey_of_unclosed isName unclosed] at inFront
    cases inFront
  · rw [holdsKey_of_plain unopened] at behind
    cases behind

/-- Of a text in three pieces that has a token of a key, the first piece has one or the last one
does, unless such a token lies over the piece in the middle. -/
theorem holdsKey_or_liesOver (isName : IsName key)
    (held : holdsKey key (before ++ (value ++ after)) = true) :
    holdsKey key before = true ∨ holdsKey key after = true ∨
      ∃ inside first middle last, IsTokenOf key (.token inside) ∧
        LiesOver (Segment.token inside).text value first middle last := by
  obtain ⟨inside, ⟨front, behind, text_eq⟩, insideFree, rfl⟩ :=
    (holdsKey_eq_true_iff isName).mp held
  have isToken : IsTokenOf (trim inside) (.token inside) := ⟨⟨insideFree, isName.ne_nil⟩, rfl⟩
  have whole_eq : before ++ (value ++ after) = front ++ ((Segment.token inside).text ++ behind) := by
    simpa [Segment.text_token] using text_eq
  rcases exists_liesOver (isToken.text_ne_nil isName) whole_eq with
    ⟨rest, rfl⟩ | ⟨rest, rfl⟩ | ⟨first, middle, last, lies⟩
  · exact .inl (holdsKey_text isName isToken front rest)
  · exact .inr (.inl (holdsKey_text isName isToken rest behind))
  · exact .inr (.inr ⟨inside, first, middle, last, isToken, lies⟩)

/-- A text that is not inert towards a key becomes a token of the key where no token was. -/
theorem exists_of_not_isInert (isName : IsName key) (live : ¬IsInert key value) :
    ∃ before after, closeBrace ∉ before ∧ openBrace ∉ after ∧
      holdsKey key (before ++ (value ++ after)) = true := by
  simp only [IsInert, not_forall, not_or] at live
  obtain ⟨before, after, held, notBefore, notAfter⟩ := live
  rcases holdsKey_or_liesOver isName held with
    inFront | inBehind | ⟨inside, first, middle, last, isToken, lies⟩
  · exact absurd inFront notBefore
  · exact absurd inBehind notAfter
  · exact isToken.exists_around isName lies

/-- A text without braces is inert towards all keys that lack one of its characters. -/
theorem isInert_of_foreign (isName : IsName key) (braceFree : BraceFree value) {c : Char}
    (cMem : c ∈ value) (notBlank : isBlank c = false) (foreign : c ∉ key) : IsInert key value := by
  intro before after held
  rcases holdsKey_or_liesOver isName held with
    inFront | inBehind | ⟨inside, first, middle, last, isToken, lies⟩
  · exact .inl inFront
  · exact .inr inBehind
  · exfalso
    obtain rfl : trim inside = key := Option.some.inj isToken.named
    obtain ⟨token_eq, ⟨lead, trail, value_eq, leading, trailing⟩, meets⟩ := lies
    have middleFree : BraceFree middle := fun d dMem => braceFree d (by simp [value_eq, dMem])
    rw [Segment.text_token] at token_eq
    -- the braces of the token are not in the value, so the value is within its name
    rcases leading with rfl | rfl
    · have filled := meets.resolve_right fun both => both.1 rfl
      have isPrefix : middle <+: openBrace :: (inside ++ [closeBrace]) := ⟨last, token_eq.symm⟩
      obtain ⟨others, rfl, _⟩ := (List.prefix_cons_iff.mp isPrefix).resolve_left filled
      exact middleFree.openBrace_notMem List.mem_cons_self
    · rcases trailing with rfl | rfl
      · have filled := meets.resolve_right fun both => both.2 rfl
        have isSuffix : middle <:+ (openBrace :: inside) ++ [closeBrace] :=
          ⟨first, by simpa using token_eq.symm⟩
        obtain ⟨others, rfl, _⟩ := (List.suffix_concat_iff.mp isSuffix).resolve_left filled
        exact middleFree.closeBrace_notMem (by simp)
      · obtain rfl : value = middle := by simpa using value_eq
        have within : c ∈ openBrace :: (inside ++ [closeBrace]) := by
          rw [token_eq]
          simp [cMem]
        have notBrace := braceFree c cMem
        simp only [isBrace, Bool.or_eq_false_iff, beq_eq_false_iff_ne] at notBrace
        have inName : c ∈ inside := by simpa [notBrace.1, notBrace.2] using within
        exact foreign (mem_trim inName notBlank)

end Cut

theorem IsInert.isApart (isName : IsName key) (inert : IsInert key value) : IsApart key value where
  noneBegins := by
    rintro after suffix ⟨lead, rfl⟩ filled
    rw [Option.eq_none_iff_forall_ne_some]
    intro length found
    obtain ⟨token, rest, isToken, text_eq, _⟩ := (tokenLength?_eq_some_iff isName).mp found
    -- the token goes on behind the value, or it ends within
    rcases List.append_eq_append_iff.mp text_eq with ⟨last, token_eq, _⟩ | ⟨trail, suffix_eq, _⟩
    · have lies : LiesOver token.text (lead ++ suffix) [] suffix last :=
        ⟨token_eq, ⟨lead, [], by simp, .inl rfl, .inr rfl⟩, .inl filled⟩
      exact inert.not_liesOver isName isToken lies
    · have lies : LiesOver token.text (lead ++ suffix) [] token.text [] :=
        ⟨by simp, ⟨lead, trail, by rw [suffix_eq], .inl rfl, .inl rfl⟩,
          .inl (isToken.text_ne_nil isName)⟩
      exact inert.not_liesOver isName isToken lies
  noneReaches := by
    intro before filled after
    apply tokenLength?_append_eq isName
    intro token part rest isToken token_eq partFilled value_eq
    -- the rest of the token covers the value, or it ends within
    rcases List.append_eq_append_iff.mp value_eq with ⟨last, part_eq, _⟩ | ⟨trail, whole, _⟩
    · have lies : LiesOver token.text value before value last := by
        refine ⟨part_eq ▸ token_eq, ⟨[], [], by simp, .inr rfl, .inr rfl⟩, ?_⟩
        by_cases empty : value = []
        · exact .inr ⟨filled, by simpa [part_eq, empty] using partFilled⟩
        · exact .inl empty
      exact inert.not_liesOver isName isToken lies
    · have lies : LiesOver token.text value before part [] :=
        ⟨by simpa using token_eq, ⟨[], trail, whole, .inr rfl, .inl rfl⟩, .inl partFilled⟩
      exact inert.not_liesOver isName isToken lies

end Stencil.Token
