import Stencil.Placeholder.Wording
import Stencil.Proofs.Text.Letter

/-!
# Labels

A label is made by four passes, each over what the one before left.  None of them makes a place
where a later one parts, and none hides one, so the four together are a single pass that looks at
two neighbours and at the character behind them, all of them in the tag itself.
-/

namespace Stencil.Wording

open Text

/-! ### Passes that part neighbours -/

/-- A rule tells whether two neighbours are parted, given the character behind them. -/
abbrev Rule := Char → Char → Option Char → Bool

/-- One pass that puts a blank between all neighbours that a rule parts. -/
def partWhere (parts : Rule) : List Char → List Char
  | c :: d :: rest =>
    if parts c d rest.head? then c :: ' ' :: partWhere parts (d :: rest)
    else c :: partWhere parts (d :: rest)
  | short => short

/-- A rule that does not ask for the character behind. -/
def pairRule (first second : Char → Bool) : Rule :=
  fun c d _ => first c && second d

/-- The last of several capitals is parted from those before it when a small letter follows. -/
def capitalsRule : Rule :=
  fun c d behind => isCapital c && isCapital d && behind.any isSmall

/-- Two neighbours are parted where one rule or another parts them. -/
def eitherRule (first second : Rule) : Rule :=
  fun c d behind => first c d behind || second c d behind

/-- The places between the words of a tag: before a capital that follows a small letter, before the
last of several capitals when a small letter follows it, and between letters and digits. -/
def isBoundary : Rule :=
  fun c d behind =>
    isSmall c && isCapital d || isCapital c && isCapital d && behind.any isSmall ||
      isLetter c && isDecimal d || isDecimal c && isLetter d

variable {parts earlier later : Rule} {c d e : Char} {rest : List Char}

theorem partWhere_of_parts (parted : parts c d rest.head? = true) :
    partWhere parts (c :: d :: rest) = c :: ' ' :: partWhere parts (d :: rest) := by
  rw [partWhere, if_pos parted]

theorem partWhere_of_not_parts (whole : parts c d rest.head? = false) :
    partWhere parts (c :: d :: rest) = c :: partWhere parts (d :: rest) := by
  rw [partWhere, if_neg (Bool.eq_false_iff.mp whole)]

theorem eq_nil_or_singleton {cs : List Char} (short : ∀ c d rest, cs ≠ c :: d :: rest) :
    cs = [] ∨ ∃ c, cs = [c] := by
  cases cs with
  | nil => exact .inl rfl
  | cons c rest =>
      cases rest with
      | nil => exact .inr ⟨c, rfl⟩
      | cons d rest => exact absurd rfl (short c d rest)

theorem partWhere_of_short {cs : List Char} (short : ∀ c d rest, cs ≠ c :: d :: rest) :
    partWhere parts cs = cs := by
  rcases eq_nil_or_singleton short with rfl | ⟨c, rfl⟩ <;> rfl

/-- A pass keeps the first character; behind it stands the next one or, where these two are parted,
a blank. -/
theorem partWhere_eq_cons (parts : Rule) (c : Char) (rest : List Char) :
    ∃ behind, partWhere parts (c :: rest) = c :: behind ∧
      (behind.head? = rest.head? ∨ behind.head? = some ' ' ∧
        ∃ d further, rest.head? = some d ∧ parts c d further = true) := by
  cases rest with
  | nil => exact ⟨[], rfl, .inl rfl⟩
  | cons d rest =>
      cases parted : parts c d rest.head? with
      | true => exact ⟨_, partWhere_of_parts parted, .inr ⟨rfl, d, _, rfl, parted⟩⟩
      | false =>
          refine ⟨_, partWhere_of_not_parts parted, .inl ?_⟩
          cases rest with
          | nil => rfl
          | cons e rest =>
              rw [partWhere]
              split
              · rfl
              · rfl

/-- A pass adds blanks only. -/
theorem filter_partWhere {test : Char → Bool} (noBlank : test ' ' = false) (parts : Rule)
    (cs : List Char) : (partWhere parts cs).filter test = cs.filter test := by
  fun_induction partWhere parts cs with
  | case1 c d rest _ ih => simp [List.filter_cons, noBlank, ← ih]
  | case2 c d rest _ ih => simp [List.filter_cons, ← ih]
  | case3 => rfl

/-! ### Passes one after the other -/

/-- The blanks that one rule puts in neither make nor hide a place for another. -/
structure IsUndisturbed (later earlier : Rule) : Prop where
  before_blank : ∀ c behind, later c ' ' behind = false
  after_blank : ∀ d behind, later ' ' d behind = false
  behind : ∀ c d e further, earlier d e further = true →
    later c d (some ' ') = later c d (some e)

/-- A pass that an earlier one does not disturb makes with it a single pass. -/
theorem partWhere_partWhere (undisturbed : IsUndisturbed later earlier) (cs : List Char) :
    partWhere later (partWhere earlier cs) =
      partWhere (eitherRule earlier later) cs := by
  fun_induction partWhere earlier cs with
  | case1 c d rest parted ih =>
      obtain ⟨behind, parted_eq, _⟩ := partWhere_eq_cons earlier d rest
      calc
        partWhere later (c :: ' ' :: partWhere earlier (d :: rest))
        _ = c :: ' ' :: partWhere later (partWhere earlier (d :: rest)) := by
          rw [partWhere_of_not_parts (undisturbed.before_blank c _), parted_eq,
            partWhere_of_not_parts (undisturbed.after_blank d _)]
        _ = partWhere (eitherRule earlier later) (c :: d :: rest) := by
          rw [ih, partWhere_of_parts (by rw [eitherRule, parted, Bool.true_or])]
  | case2 c d rest whole ih =>
      obtain ⟨behind, parted_eq, begins⟩ := partWhere_eq_cons earlier d rest
      have same : later c d behind.head? = later c d rest.head? := by
        rcases begins with same | ⟨blank, e, further, rest_eq, parted⟩
        · rw [same]
        · rw [blank, rest_eq, undisturbed.behind c d e further parted]
      have either : eitherRule earlier later c d rest.head? = later c d rest.head? := by
        rw [eitherRule, Bool.eq_false_iff.mpr whole, Bool.false_or]
      rw [partWhere, ← ih, parted_eq, partWhere, same, either]
  | case3 cs short => rw [partWhere_of_short short, partWhere_of_short short]

/-- Rules that ask for letters and digits only. -/
theorem isUndisturbed_pairRule {first second : Char → Bool} (noFirst : first ' ' = false)
    (noSecond : second ' ' = false) (earlier : Rule) :
    IsUndisturbed (pairRule first second) earlier where
  before_blank c _ := by simp [pairRule, noSecond]
  after_blank d _ := by simp [pairRule, noFirst]
  behind _ _ _ _ _ := rfl

/-! ### The passes of a label -/

/-- The second of two characters that are parted is not looked at again as a first one, which makes
no difference when no character can be both. -/
theorem partPairs_eq {first second : Char → Bool} (apart : ∀ c, second c = true → first c = false)
    (cs : List Char) : partPairs first second cs = partWhere (pairRule first second) cs := by
  fun_induction partPairs first second cs with
  | case1 c d rest parted ih =>
      rw [Bool.and_eq_true] at parted
      rw [partWhere_of_parts (by simpa [pairRule] using parted), ih]
      cases rest with
      | nil => rfl
      | cons e rest =>
          rw [partWhere_of_not_parts (by rw [pairRule, apart d parted.2, Bool.false_and])]
  | case2 c d rest whole ih =>
      rw [partWhere_of_not_parts (by simpa [pairRule] using whole), ih]
  | case3 cs short => rw [partWhere_of_short short]

/-- What the first pass parts from the next character is a small letter, and the second pass parts
only capitals from what stands before them. -/
theorem isUndisturbed_capitalsRule :
    IsUndisturbed capitalsRule (pairRule isSmall isCapital) where
  before_blank c behind := by simp [capitalsRule]
  after_blank d behind := by simp [capitalsRule]
  behind c d e further parted := by
    rw [pairRule, Bool.and_eq_true] at parted
    simp [capitalsRule, isCapital_of_isSmall parted.1]

/-- A word that begins with one capital is not parted after its first character. -/
theorem partWhere_capital_small (small : isSmall e = true) :
    partWhere capitalsRule (d :: e :: rest) = d :: e :: partWhere capitalsRule rest := by
  have noCapital : isCapital e = false := isCapital_of_isSmall small
  rw [partWhere_of_not_parts (by simp [capitalsRule, noCapital])]
  cases rest with
  | nil => rfl
  | cons f rest => rw [partWhere_of_not_parts (by simp [capitalsRule, noCapital])]

theorem partCapitals_eq (cs : List Char) : partCapitals cs = partWhere capitalsRule cs := by
  fun_induction partCapitals cs with
  | case1 c d e rest parted ih =>
      simp only [Bool.and_eq_true] at parted
      obtain ⟨⟨first, second⟩, small⟩ := parted
      rw [partWhere_of_parts (by simp [capitalsRule, first, second, small]), ih,
        partWhere_capital_small small]
  | case2 c d e rest whole ih =>
      rw [partWhere_of_not_parts (by simpa [capitalsRule] using whole), ih]
  | case3 cs short =>
      match cs with
      | [] => rfl
      | [_] => rfl
      | [c, d] =>
          have whole : capitalsRule c d ([] : List Char).head? = false := by simp [capitalsRule]
          exact (partWhere_of_not_parts whole).symm
      | c :: d :: e :: rest => exact absurd rfl (short c d e rest)

/-! ### Runs of capitals -/

/-- Tells whether a text begins with a capital and a small letter. -/
def beginsWord : List Char → Bool
  | d :: e :: _ => isCapital d && isSmall e
  | _ => false

theorem beginsWord_iff {cs : List Char} :
    beginsWord cs = true ↔
      ∃ d e rest, cs = d :: e :: rest ∧ isCapital d = true ∧ isSmall e = true := by
  rcases cs with _ | ⟨d, _ | ⟨e, rest⟩⟩ <;> simp [beginsWord]

/-- The longest run of capitals at the beginning of a text with a word behind it, and the text
behind the run.  All capitals are taken first, and given back one by one until a word follows. -/
def runBeforeWord? : List Char → Option (List Char × List Char)
  | [] => none
  | c :: rest =>
    if isCapital c then
      match runBeforeWord? rest with
      | some (run, behind) => some (c :: run, behind)
      | none => if beginsWord rest then some ([c], rest) else none
    else none

theorem runBeforeWord?_eq_some {cs run behind : List Char}
    (found : runBeforeWord? cs = some (run, behind)) :
    cs = run ++ behind ∧ run ≠ [] ∧ (∀ c ∈ run, isCapital c = true) ∧ beginsWord behind = true := by
  fun_induction runBeforeWord? cs generalizing run with
  | case1 => cases found
  | case2 c rest capital run' behind' longer ih =>
      obtain ⟨rfl, rfl⟩ := Prod.mk.inj (Option.some.inj found)
      obtain ⟨rest_eq, _, capitals, word⟩ := ih longer
      refine ⟨by rw [rest_eq]; rfl, List.cons_ne_nil _ _, ?_, word⟩
      exact List.forall_mem_cons.mpr ⟨capital, capitals⟩
  | case3 c rest capital longest word _ =>
      obtain ⟨rfl, rfl⟩ := Prod.mk.inj (Option.some.inj found)
      exact ⟨rfl, List.cons_ne_nil _ _, by simpa using capital, word⟩
  | case4 => cases found
  | case5 => cases found

theorem length_behind_run_lt {cs run behind : List Char}
    (found : runBeforeWord? cs = some (run, behind)) : (behind.drop 2).length < cs.length := by
  obtain ⟨text_eq, filled, -⟩ := runBeforeWord?_eq_some found
  have runLength := List.length_pos_iff.mpr filled
  rw [text_eq, List.length_append, List.length_drop]
  omega

/-- One pass that puts a blank behind each run of capitals with a word behind it, and goes on behind
the first two letters of the word. -/
def partRuns : List Char → List Char
  | [] => []
  | c :: rest =>
    match _ : runBeforeWord? (c :: rest) with
    | some (run, behind) => run ++ ' ' :: (behind.take 2 ++ partRuns (behind.drop 2))
    | none => c :: partRuns rest
termination_by cs => cs.length
decreasing_by
  · exact length_behind_run_lt ‹_›
  · exact Nat.lt_succ_self _

/-- A run of capitals is parted once, before the word behind it. -/
theorem partWhere_run {run : List Char} (filled : run ≠ [])
    (capitals : ∀ c ∈ run, isCapital c = true) (capital : isCapital d = true)
    (small : isSmall e = true) :
    partWhere capitalsRule (run ++ d :: e :: rest) =
      run ++ ' ' :: d :: e :: partWhere capitalsRule rest := by
  induction run with
  | nil => exact absurd rfl filled
  | cons c run ih =>
      obtain ⟨first, others⟩ := List.forall_mem_cons.mp capitals
      cases run with
      | nil =>
          have parted : capitalsRule c d (e :: rest).head? = true := by
            simp [capitalsRule, first, capital, small]
          rw [List.singleton_append, partWhere_of_parts parted, partWhere_capital_small small]
          rfl
      | cons c' run =>
          have whole : capitalsRule c c' (run ++ d :: e :: rest).head? = false := by
            cases run with
            | nil => simp [capitalsRule, isSmall_of_isCapital capital]
            | cons c'' run =>
                have third := others c'' (by simp)
                simp [capitalsRule, isSmall_of_isCapital third]
          rw [List.cons_append, List.cons_append, partWhere_of_not_parts whole, ← List.cons_append,
            ih (List.cons_ne_nil _ _) others]
          rfl

theorem capitalsRule_of_runBeforeWord?_eq_none (noRun : runBeforeWord? (c :: d :: rest) = none) :
    capitalsRule c d rest.head? = false := by
  cases rest with
  | nil => simp [capitalsRule]
  | cons e rest =>
      rw [runBeforeWord?] at noRun
      split at noRun
      · split at noRun
        · cases noRun
        · split at noRun
          · cases noRun
          · next noWord => simpa [capitalsRule, beginsWord, Bool.and_assoc] using fun _ => noWord
      · next noCapital => simp [capitalsRule, noCapital]

/-- Where a run of capitals ends can be told from the three characters there. -/
theorem partRuns_eq (cs : List Char) : partRuns cs = partWhere capitalsRule cs := by
  fun_induction partRuns cs with
  | case1 => rfl
  | case2 c rest run behind found ih =>
      obtain ⟨text_eq, filled, capitals, word⟩ := runBeforeWord?_eq_some found
      obtain ⟨d, e, further, rfl, capital, small⟩ := beginsWord_iff.mp word
      rw [text_eq, partWhere_run filled capitals capital small, ih]
      rfl
  | case3 c rest noRun ih =>
      cases rest with
      | nil => rw [ih]; rfl
      | cons d rest =>
          rw [ih, partWhere_of_not_parts (capitalsRule_of_runBeforeWord?_eq_none noRun)]

/-! ### The passes together -/

/-- The four passes together part a tag at its boundaries. -/
theorem label_eq (cs : List Char) : label cs = partWhere isBoundary cs := by
  have lettersThenDigits : ∀ earlier, IsUndisturbed (pairRule isLetter isDecimal) earlier :=
    isUndisturbed_pairRule (by simp) (by simp)
  have digitsThenLetters : ∀ earlier, IsUndisturbed (pairRule isDecimal isLetter) earlier :=
    isUndisturbed_pairRule (by simp) (by simp)
  rw [label, partPairs_eq fun _ => isSmall_of_isCapital, partCapitals_eq,
    partWhere_partWhere isUndisturbed_capitalsRule,
    partPairs_eq fun _ => isLetter_of_isDecimal, partWhere_partWhere (lettersThenDigits _),
    partPairs_eq fun _ => isDecimal_of_isLetter, partWhere_partWhere (digitsThenLetters _)]
  rfl

theorem isUndisturbed_isBoundary : IsUndisturbed isBoundary isBoundary where
  before_blank c behind := by simp [isBoundary]
  after_blank d behind := by simp [isBoundary]
  behind c d e further parted := by
    -- what stands behind matters to capitals only, and a capital is not parted from a small letter
    have notBoth : (isCapital d && isSmall e) = false := by
      rw [Bool.and_eq_false_iff, or_iff_not_imp_left, Bool.not_eq_false]
      intro capital
      rw [Bool.eq_false_iff]
      intro small
      simp [isBoundary, isSmall_of_isCapital capital, isCapital_of_isSmall small,
        isDecimal_of_isLetter (isLetter_of_isCapital capital),
        isDecimal_of_isLetter (isLetter_of_isSmall small)] at parted
    simp [isBoundary, Bool.and_assoc, notBoth]

/-- A label is parted already. -/
theorem label_label (cs : List Char) : label (label cs) = label cs := by
  have same : eitherRule isBoundary isBoundary = isBoundary := by
    funext c d behind
    exact Bool.or_self _
  rw [label_eq, label_eq, partWhere_partWhere isUndisturbed_isBoundary, same]

/-- The label of a tag is what four passes leave, each over the whole text, of which the second
takes as many capitals as it can.  It is the tag with one blank at each of its boundaries, which are
found in the tag itself; it adds blanks only, and labelling it again changes nothing. -/
theorem labelling_is_local (tag : String) :
    (labelOf tag).toList =
        partPairs isDecimal isLetter
          (partPairs isLetter isDecimal (partRuns (partPairs isSmall isCapital tag.toList))) ∧
      (labelOf tag).toList = partWhere isBoundary tag.toList ∧
      (labelOf tag).toList.filter (· != ' ') = tag.toList.filter (· != ' ') ∧
      labelOf (labelOf tag) = labelOf tag := by
  have chars : (labelOf tag).toList = label tag.toList := String.toList_ofList
  refine ⟨?_, ?_, ?_, ?_⟩
  · rw [chars, label, partCapitals_eq, partRuns_eq]
  · rw [chars, label_eq]
  · rw [chars, label_eq, filter_partWhere rfl]
  · rw [labelOf, mapChars, chars, label_label]
    rfl

example : labelOf "HTMLPage2Title" = "HTML Page 2 Title" := by decide

end Stencil.Wording
