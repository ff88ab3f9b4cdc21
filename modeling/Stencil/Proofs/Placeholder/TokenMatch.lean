import Stencil.Placeholder.Substitution
import Stencil.Proofs.Placeholder.Token

/-!
# Where a key stands

A token of a key is the key between blanks and braces.  A key has no braces and no blanks
at its ends, so it can be found in one way only: between braces it is found exactly
when it is the name there.
-/

namespace Stencil.Token

open Stencil.Text

/-- A text without braces. -/
def BraceFree (cs : List Char) : Prop :=
  ∀ c ∈ cs, isBrace c = false

instance (cs : List Char) : Decidable (BraceFree cs) :=
  List.decidableBAll _ cs

theorem BraceFree.openBrace_notMem {cs : List Char} (braceFree : BraceFree cs) :
    openBrace ∉ cs := by
  intro braceMem
  have notBrace := braceFree openBrace braceMem
  simp [isBrace] at notBrace

theorem braceFree_of_allBlank {cs : List Char} (blank : AllBlank cs) : BraceFree cs := by
  intro c cMem
  by_contra isBrace_eq
  have isBlank_eq := blank c cMem
  rcases Bool.or_eq_true _ _ ▸ eq_true_of_ne_false isBrace_eq with opening | closing
  · rw [beq_iff_eq.mp opening] at isBlank_eq
    exact absurd isBlank_eq (by decide)
  · rw [beq_iff_eq.mp closing] at isBlank_eq
    exact absurd isBlank_eq (by decide)

theorem BraceFree.append {first second : List Char} (firstFree : BraceFree first)
    (secondFree : BraceFree second) : BraceFree (first ++ second) := by
  intro c cMem
  rcases List.mem_append.mp cMem with inFirst | inSecond
  · exact firstFree c inFirst
  · exact secondFree c inSecond

theorem IsName.braceFree {key : List Char} (isName : IsName key) : BraceFree key := by
  intro c cMem
  rw [← isName.clean_eq] at cMem
  exact not_isBrace_of_mem_clean cMem

theorem IsName.trim_eq {key : List Char} (isName : IsName key) : trim key = key := by
  have filtered : (key.filter fun c => !isBrace c) = key := by
    rw [List.filter_eq_self]
    intro c cMem
    simp [isName.braceFree c cMem]
  have clean_eq := isName.clean_eq
  rwa [clean, filtered] at clean_eq

/-- The braces that close a token. -/
structure IsClosing (closing : List Char) : Prop where
  ne_nil : closing ≠ []
  all_close : ∀ c ∈ closing, c = closeBrace

theorem isClosing_single : IsClosing [closeBrace] :=
  ⟨by simp, by simp⟩

theorem isClosing_double : IsClosing [closeBrace, closeBrace] :=
  ⟨by simp, by simp⟩

/-- A text is cut at a closing behind a part without braces in one way only. -/
theorem eq_of_append_closing_eq {first second closing rest rest' : List Char}
    (isClosing : IsClosing closing) (firstFree : BraceFree first) (secondFree : BraceFree second)
    (texts_eq : first ++ (closing ++ rest) = second ++ (closing ++ rest')) : first = second := by
  rcases List.exists_cons_of_ne_nil isClosing.ne_nil with ⟨c, closing', rfl⟩
  obtain rfl := isClosing.all_close c List.mem_cons_self
  have cut {part : List Char} (partFree : BraceFree part) (behind : List Char) :
      (part ++ (closeBrace :: closing' ++ behind)).takeWhile (fun c => !isBrace c) = part := by
    have kept : ∀ c ∈ part, (!isBrace c) = true := by
      intro c cMem
      simp [partFree c cMem]
    rw [List.takeWhile_append_of_pos kept]
    simp [isBrace]
  rw [← cut firstFree rest, texts_eq, cut secondFree rest']

/-- The blanks in front of a closing end there. -/
theorem takeWhile_isBlank_closing {blanks closing : List Char} (isClosing : IsClosing closing)
    (blank : AllBlank blanks) (rest : List Char) :
    (blanks ++ (closing ++ rest)).takeWhile isBlank = blanks := by
  rcases List.exists_cons_of_ne_nil isClosing.ne_nil with ⟨c, closing', rfl⟩
  obtain rfl := isClosing.all_close c List.mem_cons_self
  rw [List.takeWhile_append_of_pos blank, List.cons_append,
    List.takeWhile_cons_of_neg (by decide), List.append_nil]

/-- What is found without blanks in front is the key, blanks and the closing. -/
theorem closedLength?_eq_some_iff {key closing cs : List Char} (isClosing : IsClosing closing)
    {length : Nat} :
    closedLength? key closing cs = some length ↔
      ∃ after rest, AllBlank after ∧ cs = key ++ (after ++ (closing ++ rest)) ∧
        length = key.length + after.length + closing.length := by
  constructor
  · intro found
    unfold closedLength? at found
    split at found
    · next keyed =>
        rcases List.isPrefixOf_iff_prefix.mp keyed with ⟨behind, rfl⟩
        simp only [List.drop_left] at found
        split at found
        · next closed =>
            rcases List.isPrefixOf_iff_prefix.mp closed with ⟨rest, closed_eq⟩
            refine ⟨behind.takeWhile isBlank, rest, ?_, ?_, (Option.some.inj found).symm⟩
            · exact fun c cMem => List.mem_takeWhile_imp cMem
            · rw [closed_eq, List.prefix_iff_eq_append.mp (List.takeWhile_prefix isBlank)]
        · cases found
    · cases found
  · rintro ⟨after, rest, blank, rfl, rfl⟩
    simp [closedLength?, takeWhile_isBlank_closing isClosing blank]

/-- A key, between blanks and with a closing behind it, takes up the first characters of a
text. -/
def StandsFirst (key closing cs : List Char) (length : Nat) : Prop :=
  ∃ before after rest, AllBlank before ∧ AllBlank after ∧
    cs = before ++ (key ++ (after ++ (closing ++ rest))) ∧
    length = before.length + key.length + after.length + closing.length

theorem StandsFirst.cons {key closing cs : List Char} {length : Nat}
    (stands : StandsFirst key closing cs length) {c : Char} (blank : isBlank c = true) :
    StandsFirst key closing (c :: cs) (length + 1) := by
  rcases stands with ⟨before, after, rest, beforeBlank, afterBlank, rfl, rfl⟩
  refine ⟨c :: before, after, rest, ?_, afterBlank, rfl, ?_⟩
  · exact List.forall_mem_cons.mpr ⟨blank, beforeBlank⟩
  · rw [List.length_cons]
    omega

/-- A key that does not begin with a blank stands behind the blanks of a text. -/
theorem StandsFirst.of_cons {key closing cs : List Char} {length : Nat} {c : Char}
    (stands : StandsFirst key closing (c :: cs) length) (blank : isBlank c = true)
    (keyNotBlank : ∀ head ∈ key.head?, isBlank head = false) (keyFilled : key ≠ []) :
    ∃ shorter, length = shorter + 1 ∧ StandsFirst key closing cs shorter := by
  rcases stands with ⟨before, after, rest, beforeBlank, afterBlank, cs_eq, rfl⟩
  cases before with
  | nil =>
      rcases List.exists_cons_of_ne_nil keyFilled with ⟨head, tail, rfl⟩
      rcases List.cons.inj cs_eq with ⟨rfl, _⟩
      rw [keyNotBlank c rfl] at blank
      cases blank
  | cons d before =>
      rcases List.cons.inj cs_eq with ⟨rfl, rest_eq⟩
      refine ⟨before.length + key.length + after.length + closing.length, ?_,
        before, after, rest, ?_, afterBlank, rest_eq, rfl⟩
      · rw [List.length_cons]
        omega
      · exact fun b bMem => beforeBlank b (List.mem_cons_of_mem _ bMem)

/-- Where a text does not begin with a blank, there are no blanks to leave out. -/
theorem closedLength?_eq_some_iff_standsFirst {key closing cs : List Char}
    (isClosing : IsClosing closing) (notBlank : ∀ c ∈ cs.head?, isBlank c = false) {length : Nat} :
    closedLength? key closing cs = some length ↔ StandsFirst key closing cs length := by
  rw [closedLength?_eq_some_iff isClosing]
  constructor
  · rintro ⟨after, rest, blank, cs_eq, length_eq⟩
    exact ⟨[], after, rest, by simp [AllBlank], blank, cs_eq, by simpa using length_eq⟩
  · rintro ⟨before, after, rest, beforeBlank, blank, cs_eq, length_eq⟩
    cases before with
    | nil => exact ⟨after, rest, blank, cs_eq, by simpa using length_eq⟩
    | cons c before =>
        have isBlank_eq := beforeBlank c List.mem_cons_self
        rw [notBlank c (by simp [cs_eq])] at isBlank_eq
        cases isBlank_eq

/-- What stands in front of a closing is a text without braces that names the key. -/
theorem StandsFirst.exists_split {key closing cs : List Char} {length : Nat} (isName : IsName key)
    (stands : StandsFirst key closing cs length) :
    ∃ inside rest, BraceFree inside ∧ trim inside = key ∧ cs = inside ++ (closing ++ rest) ∧
      length = inside.length + closing.length := by
  rcases stands with ⟨before, after, rest, beforeBlank, afterBlank, rfl, rfl⟩
  refine ⟨before ++ key ++ after, rest, ?_, ?_, by simp, by simp only [List.length_append]⟩
  · exact ((braceFree_of_allBlank beforeBlank).append isName.braceFree).append
      (braceFree_of_allBlank afterBlank)
  · rw [trim_between_blanks beforeBlank afterBlank, isName.trim_eq]

theorem IsName.head_notBlank {key : List Char} (isName : IsName key) :
    ∀ head ∈ key.head?, isBlank head = false := by
  rcases List.exists_cons_of_ne_nil isName.ne_nil with ⟨c, rest, rfl⟩
  rintro _ ⟨⟩
  exact isBlank_head_eq_false isName.trim_eq

/-- What is found is the key between blanks and the closing. -/
theorem paddedLength?_eq_some_iff {key closing cs : List Char} (isName : IsName key)
    (isClosing : IsClosing closing) {length : Nat} :
    paddedLength? key closing cs = some length ↔ StandsFirst key closing cs length := by
  induction cs generalizing length with
  | nil => exact closedLength?_eq_some_iff_standsFirst isClosing (by simp)
  | cons c rest ih =>
      by_cases blank : isBlank c = true
      -- a key begins with no blank, so it does not stand here yet
      · have notClosed : closedLength? key closing (c :: rest) = none := by
          rw [Option.eq_none_iff_forall_ne_some]
          intro found found_eq
          obtain ⟨_, _, _, cs_eq, _⟩ := (closedLength?_eq_some_iff isClosing).mp found_eq
          have notBlank := isName.head_notBlank c (by
            rcases List.exists_cons_of_ne_nil isName.ne_nil with ⟨head, tail, rfl⟩
            simpa using (List.cons.inj cs_eq).1.symm)
          rw [notBlank] at blank
          cases blank
        simp only [paddedLength?, blank, if_true, notClosed]
        constructor
        · intro found
          split at found
          · next inner inner_eq =>
              rw [← Option.some.inj found]
              exact (ih.mp inner_eq).cons blank
          · cases found
        · intro stands
          obtain ⟨shorter, rfl, inner⟩ := stands.of_cons blank isName.head_notBlank isName.ne_nil
          rw [ih.mpr inner]
      · simp only [paddedLength?, blank, Bool.false_eq_true, if_false]
        exact closedLength?_eq_some_iff_standsFirst isClosing (by simpa using blank)

/-- Between braces a key is found exactly when it is the name inside. -/
theorem paddedLength?_inside {key closing inside : List Char} (isName : IsName key)
    (isClosing : IsClosing closing) (braceFree : BraceFree inside) (rest : List Char) :
    paddedLength? key closing (inside ++ (closing ++ rest)) =
      if trim inside = key then some (inside.length + closing.length) else none := by
  split
  · next named =>
      obtain ⟨before, after, beforeBlank, afterBlank, split⟩ := exists_blanks_around_trim inside
      rw [named] at split
      rw [paddedLength?_eq_some_iff isName isClosing]
      refine ⟨before, after, rest, beforeBlank, afterBlank, ?_, ?_⟩
      · rw [split]
        simp only [List.append_assoc]
      · rw [split]
        simp only [List.length_append]
  · next other =>
      rw [Option.eq_none_iff_forall_ne_some]
      intro length found
      obtain ⟨before, after, rest', beforeBlank, afterBlank, texts_eq, _⟩ :=
        (paddedLength?_eq_some_iff isName isClosing).mp found
      have foundFree : BraceFree (before ++ key ++ after) :=
        ((braceFree_of_allBlank beforeBlank).append isName.braceFree).append
          (braceFree_of_allBlank afterBlank)
      have inside_eq : inside = before ++ key ++ after :=
        eq_of_append_closing_eq isClosing braceFree foundFree (by simpa using texts_eq)
      apply other
      rw [inside_eq, trim_between_blanks beforeBlank afterBlank, isName.trim_eq]

/-- No key stands behind a further opening brace. -/
theorem paddedLength?_openBrace {key closing : List Char} (isName : IsName key)
    (isClosing : IsClosing closing) (rest : List Char) :
    paddedLength? key closing (openBrace :: rest) = none := by
  rw [Option.eq_none_iff_forall_ne_some]
  intro length found
  obtain ⟨before, after, rest', beforeBlank, _, cs_eq, _⟩ :=
    (paddedLength?_eq_some_iff isName isClosing).mp found
  have free : BraceFree (before ++ key) :=
    (braceFree_of_allBlank beforeBlank).append isName.braceFree
  apply free.openBrace_notMem
  have filled : before ++ key ≠ [] := by simp [isName.ne_nil]
  rcases List.exists_cons_of_ne_nil filled with ⟨c, others, others_eq⟩
  rw [← List.append_assoc, others_eq] at cs_eq
  rcases List.cons.inj cs_eq with ⟨rfl, _⟩
  rw [others_eq]
  exact List.mem_cons_self

/-- Behind a lone opening brace a key is looked for between single braces only. -/
theorem tokenLength?_lone_openBrace {key rest : List Char}
    (lone : ∀ c ∈ rest.head?, c ≠ openBrace) :
    tokenLength? key (openBrace :: rest) = (paddedLength? key [closeBrace] rest).map (· + 1) := by
  cases rest with
  | nil => rfl
  | cons c rest =>
      have notOpen : (c == openBrace) = false := by simpa using lone c rfl
      simp [tokenLength?, notOpen]

/-- A token between single braces is one of the key that it names. -/
theorem tokenLength?_single {key inside : List Char} (isName : IsName key)
    (braceFree : BraceFree inside) (filled : inside ≠ []) (rest : List Char) :
    tokenLength? key (openBrace :: (inside ++ ([closeBrace] ++ rest))) =
      if trim inside = key then some (inside.length + 2) else none := by
  have lone : ∀ c ∈ (inside ++ ([closeBrace] ++ rest)).head?, c ≠ openBrace := by
    rcases List.exists_cons_of_ne_nil filled with ⟨c, inner, rfl⟩
    rintro _ ⟨⟩ rfl
    exact braceFree.openBrace_notMem List.mem_cons_self
  rw [tokenLength?_lone_openBrace lone, paddedLength?_inside isName isClosing_single braceFree]
  split
  · rfl
  · rfl

/-- A token between double braces is one of the key that it names. -/
theorem tokenLength?_doubled {key inside : List Char} (isName : IsName key)
    (braceFree : BraceFree inside) (rest : List Char) :
    tokenLength? key
        (openBrace :: openBrace :: (inside ++ ([closeBrace, closeBrace] ++ rest))) =
      if trim inside = key then some (inside.length + 4) else none := by
  have doubled := paddedLength?_inside isName isClosing_double braceFree rest
  have single := paddedLength?_openBrace isName isClosing_single
    (inside ++ ([closeBrace, closeBrace] ++ rest))
  simp only [tokenLength?, beq_self_eq_true, if_true, doubled, single]
  split
  · rfl
  · rfl

/-- No token begins at any other character than an opening brace. -/
theorem tokenLength?_of_ne {key : List Char} {c : Char} (notOpen : c ≠ openBrace)
    (rest : List Char) : tokenLength? key (c :: rest) = none := by
  simp [tokenLength?, notOpen]

/-- A key that is found stands with its braces, which are single or double ones on both sides. -/
theorem exists_of_tokenLength?_eq_some {key cs : List Char} (isName : IsName key) {length : Nat}
    (found : tokenLength? key cs = some length) :
    ∃ inside rest, BraceFree inside ∧ trim inside = key ∧
      (cs = openBrace :: (inside ++ ([closeBrace] ++ rest)) ∧ length = inside.length + 2 ∨
        cs = openBrace :: openBrace :: (inside ++ ([closeBrace, closeBrace] ++ rest)) ∧
          length = inside.length + 4) := by
  cases cs with
  | nil => cases found
  | cons c behind =>
      have opening : c = openBrace := by
        by_contra other
        rw [tokenLength?_of_ne other] at found
        cases found
      subst opening
      simp only [tokenLength?, beq_self_eq_true, if_true, Option.or_eq_some_iff] at found
      rcases found with doubled | ⟨_, single⟩
      · -- behind the second opening brace
        cases behind with
        | nil => cases doubled
        | cons d inner =>
            by_cases second : d = openBrace
            · subst second
              simp only [beq_self_eq_true, if_true, Option.map_eq_some_iff] at doubled
              obtain ⟨padded, padded_eq, rfl⟩ := doubled
              obtain ⟨inside, rest, braceFree, named, rfl, rfl⟩ :=
                ((paddedLength?_eq_some_iff isName isClosing_double).mp padded_eq).exists_split
                  isName
              exact ⟨inside, rest, braceFree, named, .inr ⟨rfl, rfl⟩⟩
            · simp [second] at doubled
      · obtain ⟨padded, padded_eq, rfl⟩ := Option.map_eq_some_iff.mp single
        obtain ⟨inside, rest, braceFree, named, rfl, rfl⟩ :=
          ((paddedLength?_eq_some_iff isName isClosing_single).mp padded_eq).exists_split isName
        exact ⟨inside, rest, braceFree, named, .inl ⟨rfl, rfl⟩⟩

end Stencil.Token
