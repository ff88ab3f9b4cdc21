import Stencil.Proofs.Placeholder.Substitution
import Stencil.Proofs.Text.Split

/-!
# What is scanned and what is filled

Scanning takes all from an opening brace to the next closing one for a token.  Filling
looks for a name with nothing but blanks between it and the braces.  Both find the same
names in a text without nested tokens, where a further opening brace stands at the front
of a token only.  Otherwise they differ: scanning reads on through an inner opening brace,
and filling begins anew there.
-/

namespace Stencil.Token

open Stencil.Text

theorem closeBrace_ne_openBrace : closeBrace ≠ openBrace := by
  decide

/-- A text stands between an opening brace and a closing one of another text. -/
def StandsInBraces (inside cs : List Char) : Prop :=
  ∃ before after, cs = before ++ openBrace :: (inside ++ closeBrace :: after)

theorem StandsInBraces.append_left {inside cs : List Char} (stands : StandsInBraces inside cs)
    (front : List Char) : StandsInBraces inside (front ++ cs) := by
  rcases stands with ⟨before, after, rfl⟩
  exact ⟨front ++ before, after, by simp⟩

theorem StandsInBraces.inner {outer inner cs : List Char}
    (stands : StandsInBraces (outer ++ openBrace :: inner) cs) : StandsInBraces inner cs := by
  rcases stands with ⟨before, after, rfl⟩
  exact ⟨before ++ openBrace :: outer, after, by simp⟩

/-- No token begins within another one: between an opening brace and the next closing one,
a further opening brace has nothing but opening braces and blanks before it. -/
def IsUnnested (cs : List Char) : Prop :=
  ∀ outer inner, StandsInBraces (outer ++ openBrace :: inner) cs →
    closeBrace ∉ outer → closeBrace ∉ inner → ∀ c ∈ outer, c = openBrace ∨ isBlank c = true

variable {key cs : List Char}

/-- A token of a key has the key inside of a pair of braces. -/
theorem standsInBraces_of_tokenLength? (isName : IsName key)
    (found : (tokenLength? key cs).isSome = true) :
    ∃ inside, StandsInBraces inside cs ∧ BraceFree inside ∧ trim inside = key := by
  obtain ⟨length, length_eq⟩ := Option.isSome_iff_exists.mp found
  obtain ⟨inside, rest, braceFree, named, ⟨rfl, _⟩ | ⟨rfl, _⟩⟩ :=
    exists_of_tokenLength?_eq_some isName length_eq
  · exact ⟨inside, ⟨[], rest, rfl⟩, braceFree, named⟩
  · exact ⟨inside, ⟨[openBrace], closeBrace :: rest, rfl⟩, braceFree, named⟩

/-- A key is found in a text exactly when it is the name inside of some pair of braces. -/
theorem holdsKey_eq_true_iff (isName : IsName key) :
    holdsKey key cs = true ↔
      ∃ inside, StandsInBraces inside cs ∧ BraceFree inside ∧ trim inside = key := by
  constructor
  · intro held
    induction cs with
    | nil => cases held
    | cons c rest ih =>
        rcases Bool.or_eq_true _ _ ▸ held with here | later
        · exact standsInBraces_of_tokenLength? isName here
        · obtain ⟨inside, stands, braceFree, named⟩ := ih later
          exact ⟨inside, stands.append_left [c], braceFree, named⟩
  · rintro ⟨inside, ⟨before, after, rfl⟩, braceFree, named⟩
    induction before with
    | nil =>
        have found := paddedLength?_inside isName isClosing_single braceFree after
        rw [if_pos named] at found
        simp only [List.cons_append, List.nil_append] at found
        simp [holdsKey, tokenLength?, found]
    | cons c before ih => simp [holdsKey, ih]

/-- What has been read of a token that is still open, with its opening brace. -/
def opened : Option (List Char) → List Char
  | none => []
  | some seen => openBrace :: seen.reverse

/-- What is read between braces stands there, and the closing brace is the next one. -/
theorem standsInBraces_of_mem_bodies {body : List Char} (bodyMem : body ∈ bodies none cs) :
    StandsInBraces body cs ∧ closeBrace ∉ body := by
  -- on the way, the reader may be inside of a token that was opened further up front
  suffices ∀ state, (∀ seen ∈ state, closeBrace ∉ seen) → body ∈ bodies state cs →
      StandsInBraces body (opened state ++ cs) ∧ closeBrace ∉ body from
    this none (by simp) bodyMem
  clear bodyMem
  induction cs with
  | nil =>
      intro state _ bodyMem
      cases bodyMem
  | cons c rest ih =>
      intro state unclosed bodyMem
      cases state with
      | none =>
          by_cases opening : c = openBrace
          · simp only [bodies, opening, beq_self_eq_true, if_true] at bodyMem
            have inside := ih (some []) (by simp) bodyMem
            simpa [opened, opening] using inside
          · simp only [bodies, beq_eq_false_iff_ne.mpr opening, Bool.false_eq_true,
              if_false] at bodyMem
            obtain ⟨stands, notMem⟩ := ih none (by simp) bodyMem
            exact ⟨stands.append_left [c], notMem⟩
      | some seen =>
          have seenUnclosed := unclosed seen rfl
          by_cases closing : c = closeBrace
          · simp only [bodies, closing, beq_self_eq_true, if_true, List.mem_cons] at bodyMem
            rcases bodyMem with rfl | later
            · refine ⟨⟨[], rest, ?_⟩, by simpa using seenUnclosed⟩
              simp [opened, closing]
            · obtain ⟨stands, notMem⟩ := ih none (by simp) later
              refine ⟨?_, notMem⟩
              simpa [opened] using stands.append_left (openBrace :: (seen.reverse ++ [c]))
          · simp only [bodies, beq_eq_false_iff_ne.mpr closing, Bool.false_eq_true,
              if_false] at bodyMem
            have longerUnclosed : ∀ longer ∈ some (c :: seen), closeBrace ∉ longer := by
              rintro _ ⟨⟩
              simp [seenUnclosed, Ne.symm closing]
            simpa [opened] using ih (some (c :: seen)) longerUnclosed bodyMem

/-- An open token ends at the next closing brace. -/
theorem bodies_some_append {inside : List Char} (unclosed : closeBrace ∉ inside)
    (seen after : List Char) :
    bodies (some seen) (inside ++ closeBrace :: after) =
      (seen.reverse ++ inside) :: bodies none after := by
  induction inside generalizing seen with
  | nil => simp [bodies]
  | cons c inside ih =>
      rcases not_or.mp (mt List.mem_cons.mpr unclosed) with ⟨notClosing, restUnclosed⟩
      have other : (c == closeBrace) = false := beq_eq_false_iff_ne.mpr (Ne.symm notClosing)
      simp [bodies, other, ih restUnclosed]

/-- What stands in braces up to the next closing one is read as the end of a token. -/
theorem exists_mem_bodies {inside : List Char} (unclosed : closeBrace ∉ inside)
    (stands : StandsInBraces inside cs) :
    inside ∈ bodies none cs ∨ ∃ outer, outer ++ openBrace :: inside ∈ bodies none cs := by
  rcases stands with ⟨before, after, rfl⟩
  -- the reader may be inside of a token already, which then takes the opening brace along
  suffices ∀ state, inside ∈ bodies state (before ++ openBrace :: (inside ++ closeBrace :: after)) ∨
      ∃ outer, outer ++ openBrace :: inside ∈
        bodies state (before ++ openBrace :: (inside ++ closeBrace :: after)) from this none
  induction before with
  | nil =>
      intro state
      cases state with
      | none =>
          left
          simp [bodies, bodies_some_append unclosed]
      | some seen =>
          right
          refine ⟨seen.reverse, ?_⟩
          simp [bodies, closeBrace_ne_openBrace.symm, bodies_some_append unclosed]
  | cons c before ih =>
      intro state
      cases state with
      | none => exact ih (if c == openBrace then some [] else none)
      | some seen =>
          rw [List.cons_append, bodies]
          split
          · rcases ih none with whole | ⟨outer, part⟩
            · exact .inl (List.mem_cons_of_mem _ whole)
            · exact .inr ⟨outer, List.mem_cons_of_mem _ part⟩
          · exact ih (some (c :: seen))

theorem clean_of_braceFree {inside : List Char} (braceFree : BraceFree inside) :
    clean inside = trim inside := by
  rw [clean, List.filter_eq_self.mpr]
  intro c cMem
  simp [braceFree c cMem]

/-- Further opening braces and blanks at the front of a token do not belong to its name. -/
theorem clean_of_front {outer inner : List Char}
    (front : ∀ c ∈ outer, c = openBrace ∨ isBlank c = true) (braceFree : BraceFree inner) :
    clean (outer ++ openBrace :: inner) = trim inner := by
  have blank : AllBlank (outer.filter fun c => !isBrace c) := by
    intro c cMem
    rcases List.mem_filter.mp cMem with ⟨outerMem, notBrace⟩
    rcases front c outerMem with rfl | isBlank_eq
    · cases notBrace
    · exact isBlank_eq
  have kept : ((openBrace :: inner).filter fun c => !isBrace c) = inner := by
    rw [List.filter_cons_of_neg (by decide), List.filter_eq_self]
    intro c cMem
    simp [braceFree c cMem]
  have nothing : AllBlank [] := by simp [AllBlank]
  rw [clean, List.filter_append, kept]
  simpa using trim_between_blanks blank nothing inner

theorem braceFree_of_notMem {inside : List Char} (unopened : openBrace ∉ inside)
    (unclosed : closeBrace ∉ inside) : BraceFree inside := by
  intro c cMem
  have notOpening : c ≠ openBrace := fun same => unopened (same ▸ cMem)
  have notClosing : c ≠ closeBrace := fun same => unclosed (same ▸ cMem)
  simp [isBrace, notOpening, notClosing]

/-- The name of a token that nests nothing stands in a pair of braces. -/
theorem IsUnnested.exists_inner (unnested : IsUnnested cs) {body : List Char}
    (stands : StandsInBraces body cs) (unclosed : closeBrace ∉ body) :
    ∃ inner, StandsInBraces inner cs ∧ BraceFree inner ∧ trim inner = clean body := by
  by_cases nested : openBrace ∈ body
  · obtain ⟨outer, inner, rfl, unopened⟩ := exists_last_mark nested
    simp only [List.mem_append, List.mem_cons, not_or] at unclosed
    rcases unclosed with ⟨outerUnclosed, _, innerUnclosed⟩
    have braceFree : BraceFree inner := braceFree_of_notMem unopened innerUnclosed
    have front := unnested _ _ stands outerUnclosed innerUnclosed
    exact ⟨inner, stands.inner, braceFree, (clean_of_front front braceFree).symm⟩
  · have braceFree := braceFree_of_notMem nested unclosed
    exact ⟨body, stands, braceFree, (clean_of_braceFree braceFree).symm⟩

theorem BraceFree.closeBrace_notMem {inside : List Char} (braceFree : BraceFree inside) :
    closeBrace ∉ inside := by
  intro braceMem
  cases braceFree closeBrace braceMem

/-- A name in a pair of braces is that of a token. -/
theorem IsUnnested.exists_body (unnested : IsUnnested cs) {inside : List Char}
    (stands : StandsInBraces inside cs) (braceFree : BraceFree inside) :
    ∃ body ∈ bodies none cs, clean body = trim inside := by
  rcases exists_mem_bodies braceFree.closeBrace_notMem stands with whole | ⟨outer, part⟩
  · exact ⟨inside, whole, clean_of_braceFree braceFree⟩
  · obtain ⟨bodyStands, unclosed⟩ := standsInBraces_of_mem_bodies part
    simp only [List.mem_append, List.mem_cons, not_or] at unclosed
    have front := unnested outer inside bodyStands unclosed.1 unclosed.2.2
    exact ⟨_, part, clean_of_front front braceFree⟩

/-- In a text without nested tokens, a name is scanned exactly when the filler finds it. -/
theorem IsUnnested.mem_scan_iff (unnested : IsUnnested cs) (isName : IsName key) :
    key ∈ scan cs ↔ holdsKey key cs = true := by
  rw [holdsKey_eq_true_iff isName]
  simp only [scan, List.mem_filter, List.mem_map]
  constructor
  · rintro ⟨⟨body, bodyMem, rfl⟩, _⟩
    obtain ⟨stands, unclosed⟩ := standsInBraces_of_mem_bodies bodyMem
    exact unnested.exists_inner stands unclosed
  · rintro ⟨inside, stands, braceFree, rfl⟩
    exact ⟨unnested.exists_body stands braceFree, by simpa using isName.ne_nil⟩

theorem bodies_append_of_plain {text : List Char} (plain : openBrace ∉ text) (rest : List Char) :
    bodies none (text ++ rest) = bodies none rest := by
  induction text with
  | nil => rfl
  | cons c text ih =>
      rcases not_or.mp (mt List.mem_cons.mpr plain) with ⟨notOpening, restPlain⟩
      have other : (c == openBrace) = false := beq_eq_false_iff_ne.mpr (Ne.symm notOpening)
      simp [bodies, other, ih restPlain]

theorem bodies_text_append {segment : Segment} (readable : segment.IsReadable)
    (rest : List Char) :
    bodies none (segment.text ++ rest) = segment.body?.toList ++ bodies none rest := by
  cases segment with
  | literal text => exact bodies_append_of_plain readable rest
  | token inside =>
      have unclosed : closeBrace ∉ inside := BraceFree.closeBrace_notMem readable
      have opening : bodies none (openBrace :: (inside ++ closeBrace :: rest)) =
          inside :: bodies none rest := by
        rw [bodies, beq_self_eq_true, if_pos rfl, bodies_some_append unclosed]
        rfl
      simpa [Segment.text_token, Segment.body?] using opening
  | doubled inside =>
      have unclosed : closeBrace ∉ openBrace :: inside := by
        simp [closeBrace_ne_openBrace, BraceFree.closeBrace_notMem readable]
      have behind : bodies none (closeBrace :: rest) = bodies none rest :=
        bodies_append_of_plain (show openBrace ∉ [closeBrace] by decide) rest
      have opening : bodies none (openBrace :: ((openBrace :: inside) ++
          closeBrace :: closeBrace :: rest)) = (openBrace :: inside) :: bodies none rest := by
        rw [bodies, beq_self_eq_true, if_pos rfl, bodies_some_append unclosed, behind]
        rfl
      simpa [Segment.text_doubled, Segment.body?] using opening

/-- In a text written of pieces, what is read between braces are the names in them, with the
second opening brace of double ones. -/
theorem bodies_textOf {segments : List Segment}
    (readable : ∀ segment ∈ segments, segment.IsReadable) :
    bodies none (Segment.textOf segments) = segments.filterMap Segment.body? := by
  induction segments with
  | nil => rfl
  | cons segment rest ih =>
      rcases List.forall_mem_cons.mp readable with ⟨segmentReadable, restReadable⟩
      rw [Segment.textOf_cons, bodies_text_append segmentReadable, ih restReadable]
      cases segment <;> rfl

/-- In a well-formed template a token has at most one more opening brace, which is its first
character. -/
theorem exists_of_mem_bodies_textOf {segments : List Segment}
    (proper : ∀ segment ∈ segments, segment.IsProper) {body : List Char}
    (bodyMem : body ∈ bodies none (Segment.textOf segments)) :
    ∃ inside, BraceFree inside ∧ (body = inside ∨ body = openBrace :: inside) := by
  rw [bodies_textOf fun segment segmentMem => (proper segment segmentMem).isReadable] at bodyMem
  obtain ⟨segment, segmentMem, body_eq⟩ := List.mem_filterMap.mp bodyMem
  have segmentProper := proper segment segmentMem
  cases segment with
  | literal text => cases body_eq
  | token inside => exact ⟨inside, segmentProper.1, .inl (Option.some.inj body_eq).symm⟩
  | doubled inside => exact ⟨inside, segmentProper.1, .inr (Option.some.inj body_eq).symm⟩

/-- A well-formed template nests no tokens. -/
theorem isUnnested_textOf {segments : List Segment}
    (proper : ∀ segment ∈ segments, segment.IsProper) : IsUnnested (Segment.textOf segments) := by
  intro outer inner stands outerUnclosed innerUnclosed
  have unclosed : closeBrace ∉ outer ++ openBrace :: inner := by
    simp [outerUnclosed, innerUnclosed, closeBrace_ne_openBrace]
  -- behind its first character, the token that ends here has no opening brace
  have front : ∀ before, before ++ openBrace :: inner ∈ bodies none (Segment.textOf segments) →
      before = [] := by
    intro before bodyMem
    obtain ⟨inside, braceFree, body_eq | body_eq⟩ := exists_of_mem_bodies_textOf proper bodyMem
    · exact absurd (body_eq ▸ by simp) braceFree.openBrace_notMem
    · cases before with
      | nil => rfl
      | cons c before =>
          obtain ⟨_, inside_eq⟩ := List.cons.inj body_eq
          exact absurd (inside_eq ▸ by simp) braceFree.openBrace_notMem
  rcases exists_mem_bodies unclosed stands with whole | ⟨further, part⟩
  · simp [front outer whole]
  · have nothing := front (further ++ openBrace :: outer) (by simpa using part)
    simp at nothing

theorem isName_of_braceFree (braceFree : BraceFree key) (trimmed : trim key = key)
    (filled : key ≠ []) : IsName key where
  clean_eq := by rw [clean_of_braceFree braceFree, trimmed]
  ne_nil := filled

theorem mem_namesIn_iff {name text : String} :
    name ∈ namesIn text ↔ name.toList ∈ scan text.toList := by
  simp only [namesIn, List.mem_map]
  constructor
  · rintro ⟨cs, csMem, rfl⟩
    simpa using csMem
  · intro scanned
    exact ⟨name.toList, scanned, by simp⟩

end Stencil.Token

namespace Stencil.Extraction

open Stencil.Text Stencil.Token

/-- In a part whose paragraphs nest no tokens, a name without braces and without blanks
around is reported exactly when the filler finds it in some paragraph. -/
theorem mem_tokensOf_iff_holdsKey {root : Xml.Node} {key : String} (filled : key.toList ≠ [])
    (trimmed : trim key.toList = key.toList) (braceFree : BraceFree key.toList)
    (unnested : ∀ text ∈ Word.paragraphTexts root, IsUnnested text.toList) :
    key ∈ tokensOf root ↔
      ∃ text ∈ Word.paragraphTexts root, holdsKey key.toList text.toList = true := by
  have isName := isName_of_braceFree braceFree trimmed filled
  rw [tokensOf, List.mem_flatMap]
  constructor
  · rintro ⟨text, textMem, named⟩
    exact ⟨text, textMem, ((unnested text textMem).mem_scan_iff isName).mp
      (mem_namesIn_iff.mp named)⟩
  · rintro ⟨text, textMem, held⟩
    exact ⟨text, textMem, mem_namesIn_iff.mpr
      (((unnested text textMem).mem_scan_iff isName).mpr held)⟩

/-- A part with one paragraph of one text. -/
def samplePart (segments : List Segment) : Xml.Node :=
  .element (Word.named "p") [] [
    .element (Word.named "t") [] [.text (String.ofList (Segment.textOf segments))]]

/-- A stray closing brace and a token between double braces. -/
def sampleSegments : List Segment :=
  [.literal "a\x7d ".toList, .doubled " Client ".toList, .token "date".toList]

theorem mem_tokensOf_samplePart :
    "Client" ∈ tokensOf (samplePart sampleSegments) ↔
      ∃ text ∈ Word.paragraphTexts (samplePart sampleSegments),
        holdsKey "Client".toList text.toList = true := by
  have texts_eq : Word.paragraphTexts (samplePart sampleSegments) =
      [String.ofList (Segment.textOf sampleSegments)] := by decide +kernel
  apply mem_tokensOf_iff_holdsKey
  · decide
  · decide
  · decide
  · rw [texts_eq]
    intro text textMem
    rw [List.mem_singleton.mp textMem, String.toList_ofList]
    exact isUnnested_textOf (by decide)

/-- Of two nested tokens the filler finds the inner one, but neither of their names is
reported; what is reported is both names in one, under which nothing is filled. -/
theorem nested_token_is_misread :
    "b" ∉ namesIn "\x7ba\x7bb\x7d" ∧ holdsKey "b".toList "\x7ba\x7bb\x7d".toList = true ∧
      "ab" ∈ namesIn "\x7ba\x7bb\x7d" ∧ holdsKey "ab".toList "\x7ba\x7bb\x7d".toList = false := by
  decide +kernel

end Stencil.Extraction
