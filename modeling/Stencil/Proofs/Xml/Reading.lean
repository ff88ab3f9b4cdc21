import Mathlib.Data.List.TakeWhile
import Stencil.Proofs.Text.Replace
import Stencil.Xml.Basic

/-!
# What readers take off

A reader takes a text off the front of what it reads.  It takes the same text off whatever stands
behind, as long as that begins with the same character; and a reader that reads up to a closing
mark does not look at what stands behind at all.
-/

namespace Stencil.Xml

open Text (BeginsNowhere)

/-- All characters up to the first one that fails a test. -/
structure IsRun (test : Char → Bool) (run rest : List Char) : Prop where
  all : ∀ c ∈ run, test c = true
  ends : ∀ c ∈ rest.head?, test c = false

section Run

variable {test : Char → Bool} {run rest : List Char}

theorem isRun_takeWhile (test : Char → Bool) (cs : List Char) :
    IsRun test (cs.takeWhile test) (cs.dropWhile test) where
  all := fun c cMem => List.mem_takeWhile_imp cMem
  ends := by
    intro c cMem
    have ends := cs.head?_dropWhile_not test
    rwa [Option.mem_def.mp cMem] at ends

theorem IsRun.takeWhile_append (isRun : IsRun test run rest) :
    (run ++ rest).takeWhile test = run := by
  rw [List.takeWhile_append_of_pos isRun.all]
  cases rest with
  | nil => simp
  | cons c rest =>
      rw [List.takeWhile_cons_of_neg (by simpa using isRun.ends c rfl), List.append_nil]

theorem IsRun.dropWhile_append (isRun : IsRun test run rest) :
    (run ++ rest).dropWhile test = rest := by
  rw [List.dropWhile_append_of_pos isRun.all]
  cases rest with
  | nil => rfl
  | cons c rest => rw [List.dropWhile_cons_of_neg (by simpa using isRun.ends c rfl)]

theorem IsRun.of_head?_eq (isRun : IsRun test run rest) {rest' : List Char}
    (head_eq : rest'.head? = rest.head?) : IsRun test run rest' :=
  ⟨isRun.all, head_eq ▸ isRun.ends⟩

end Run

theorem head?_append_congr {part rest rest' : List Char} (head_eq : rest'.head? = rest.head?) :
    (part ++ rest').head? = (part ++ rest).head? := by
  cases part with
  | nil => exact head_eq
  | cons c part => rfl

theorem head?_append_of_ne_nil {part : List Char} (filled : part ≠ []) (rest : List Char) :
    (part ++ rest).head? = part.head? := by
  cases part with
  | nil => exact absurd rfl filled
  | cons c part => rfl

/-- A word is found whatever stands behind a character that it does not have. -/
theorem prefix_append_iff_of_mem {α : Type} {word taken : List α} {c : α} (cMem : c ∈ taken)
    (notMem : c ∉ word) (rest : List α) : word <+: taken ++ rest ↔ word <+: taken := by
  constructor
  · intro stands
    rcases List.prefix_or_prefix_of_prefix stands (List.prefix_append taken rest) with
      within | beyond
    · exact within
    · exact absurd (beyond.subset cMem) notMem
  · exact fun stands => stands.trans (List.prefix_append taken rest)

/-- Tells that a text is more than white space. -/
def IsMarked (cs : List Char) : Prop :=
  ∃ c ∈ cs, isSpace c = false

instance (cs : List Char) : Decidable (IsMarked cs) :=
  decidable_of_iff ((cs.any fun c => !isSpace c) = true) (by simp [IsMarked])

/-- Texts that begin alike, also behind white space. -/
structure Alike (rest rest' : List Char) : Prop where
  head_eq : rest'.head? = rest.head?
  next_eq : (skipSpace rest').head? = (skipSpace rest).head?

section Alike

variable {part rest rest' : List Char}

theorem IsMarked.ne_nil (marked : IsMarked part) : part ≠ [] := by
  rintro rfl
  obtain ⟨c, cMem, _⟩ := marked
  cases cMem

theorem isMarked_of_bracket (bracketMem : '>' ∈ part) : IsMarked part :=
  ⟨'>', bracketMem, by decide⟩

theorem IsMarked.append_left (marked : IsMarked rest) (part : List Char) :
    IsMarked (part ++ rest) := by
  obtain ⟨c, cMem, noSpace⟩ := marked
  exact ⟨c, List.mem_append_right part cMem, noSpace⟩

theorem IsMarked.append_right (marked : IsMarked part) (rest : List Char) :
    IsMarked (part ++ rest) := by
  obtain ⟨c, cMem, noSpace⟩ := marked
  exact ⟨c, List.mem_append_left rest cMem, noSpace⟩

theorem head?_skipSpace_append (marked : IsMarked part) (rest : List Char) :
    (skipSpace (part ++ rest)).head? = (skipSpace part).head? := by
  induction part with
  | nil => exact absurd rfl marked.ne_nil
  | cons c part ih =>
      by_cases space : isSpace c = true
      · have markedPart : IsMarked part := by
          obtain ⟨d, dMem, noSpace⟩ := marked
          rcases List.mem_cons.mp dMem with rfl | dMem
          · rw [space] at noSpace
            cases noSpace
          · exact ⟨d, dMem, noSpace⟩
        rw [List.cons_append, skipSpace, List.dropWhile_cons_of_pos space, skipSpace,
          List.dropWhile_cons_of_pos space]
        exact ih markedPart
      · rw [List.cons_append, skipSpace, List.dropWhile_cons_of_neg space, skipSpace,
          List.dropWhile_cons_of_neg space, List.head?_cons, List.head?_cons]

theorem alike_append (marked : IsMarked part) (rest rest' : List Char) :
    Alike (part ++ rest) (part ++ rest') where
  head_eq := by
    rw [head?_append_of_ne_nil marked.ne_nil, head?_append_of_ne_nil marked.ne_nil]
  next_eq := by rw [head?_skipSpace_append marked, head?_skipSpace_append marked]

theorem Alike.append (alike : Alike rest rest') (part : List Char) :
    Alike (part ++ rest) (part ++ rest') where
  head_eq := head?_append_congr alike.head_eq
  next_eq := by
    -- white space alone does not hide what stands behind it
    by_cases marked : IsMarked part
    · exact (alike_append marked rest rest').next_eq
    · have blank : ∀ c ∈ part, isSpace c = true := by
        intro c cMem
        rw [← Bool.not_eq_false]
        exact fun noSpace => marked ⟨c, cMem, noSpace⟩
      rw [skipSpace, List.dropWhile_append_of_pos blank, skipSpace,
        List.dropWhile_append_of_pos blank]
      exact alike.next_eq

end Alike

section Readers

variable {γ δ : Type} {reader : List Char → Option γ} {next : γ → Option δ}
  {result : List Char → γ} {result' : List Char → δ} {cs middle rest : List Char}

/-- A reader takes off all up to a rest, whatever stands there that begins alike. -/
def TakesOff (reader : List Char → Option γ) (result : List Char → γ) (cs rest : List Char) :
    Prop :=
  ∃ taken, cs = taken ++ rest ∧ ∀ rest', Alike rest rest' →
    reader (taken ++ rest') = some (result rest')

/-- A reader takes off more than white space up to a rest, whatever stands there. -/
def CutsOff (reader : List Char → Option γ) (result : List Char → γ) (cs rest : List Char) :
    Prop :=
  ∃ taken, IsMarked taken ∧ cs = taken ++ rest ∧
    ∀ rest', reader (taken ++ rest') = some (result rest')

theorem CutsOff.takesOff (cuts : CutsOff reader result cs rest) :
    TakesOff reader result cs rest := by
  obtain ⟨taken, _, cs_eq, reads⟩ := cuts
  exact ⟨taken, cs_eq, fun rest' _ => reads rest'⟩

theorem TakesOff.suffix {γ : Type} {reader : List Char → Option γ} {result : List Char → γ}
    (takes : TakesOff reader result cs rest) : rest <:+ cs := by
  obtain ⟨taken, rfl, _⟩ := takes
  exact List.suffix_append taken rest

theorem TakesOff.bind (first : TakesOff reader result cs middle)
    (second : TakesOff (fun rest => next (result rest)) result' middle rest) :
    TakesOff (fun cs => reader cs >>= next) result' cs rest := by
  obtain ⟨taken, rfl, reads⟩ := first
  obtain ⟨taken', rfl, reads'⟩ := second
  refine ⟨taken ++ taken', (List.append_assoc ..).symm, fun rest' alike => ?_⟩
  simp only [List.append_assoc]
  rw [reads _ (alike.append taken')]
  exact reads' rest' alike

theorem TakesOff.bind_cutsOff (first : TakesOff reader result cs middle)
    (second : CutsOff (fun rest => next (result rest)) result' middle rest) :
    CutsOff (fun cs => reader cs >>= next) result' cs rest := by
  obtain ⟨taken, rfl, reads⟩ := first
  obtain ⟨taken', marked, rfl, reads'⟩ := second
  refine ⟨taken ++ taken', marked.append_left taken, (List.append_assoc ..).symm,
    fun rest' => ?_⟩
  simp only [List.append_assoc]
  rw [reads _ (alike_append marked rest rest')]
  exact reads' rest'

/-- What a reader makes of its result does not matter to what it takes off. -/
theorem CutsOff.bind_pure (cuts : CutsOff reader result cs rest) (change : γ → δ) :
    CutsOff (fun cs => reader cs >>= fun read => pure (change read))
      (fun rest => change (result rest)) cs rest := by
  obtain ⟨taken, marked, cs_eq, reads⟩ := cuts
  refine ⟨taken, marked, cs_eq, fun rest' => ?_⟩
  dsimp only
  rw [reads rest']
  rfl

theorem TakesOff.skip_cutsOff {skip : List Char → Option (List Char)}
    {next : List Char → Option δ} (first : TakesOff skip id cs middle)
    (second : CutsOff next result' middle rest) :
    CutsOff (fun cs => skip cs >>= next) result' cs rest :=
  first.bind_cutsOff second

end Readers

section Fuel

variable {γ : Type} {reader : Nat → List Char → Option γ} {result : List Char → γ} {fuel : Nat}
  {cs rest : List Char}

/-- A reader with fuel takes off a text that has a bracket in it, whatever stands behind.  There
is fuel enough if there was enough or if there is some for each character. -/
def ClosesOff (reader : Nat → List Char → Option γ) (result : List Char → γ) (fuel : Nat)
    (cs rest : List Char) : Prop :=
  ∃ taken, '>' ∈ taken ∧ cs = taken ++ rest ∧ ∀ fuel', min fuel taken.length ≤ fuel' →
    ∀ rest', reader fuel' (taken ++ rest') = some (result rest')

/-- A step takes off what stands in front, and leaves fuel for what is behind it. -/
theorem ClosesOff.of_step (front taken : List Char) (ends : '>' ∈ front ++ taken)
    (cs_eq : cs = front ++ (taken ++ rest))
    (reads : ∀ fuel', min fuel (front.length + taken.length - 1) ≤ fuel' → ∀ rest',
      reader (fuel' + 1) (front ++ (taken ++ rest')) = some (result rest')) :
    ClosesOff reader result (fuel + 1) cs rest := by
  refine ⟨front ++ taken, ends, by rw [cs_eq, List.append_assoc], fun fuel' least rest' => ?_⟩
  have positive := List.length_pos_iff.mpr (List.ne_nil_of_mem ends)
  rw [List.length_append] at least positive
  obtain ⟨less, rfl⟩ : ∃ less, fuel' = less + 1 := ⟨fuel' - 1, by omega⟩
  rw [List.append_assoc]
  exact reads less (by omega) rest'

end Fuel

section Words

variable {cs rest : List Char}

theorem skipSpace_append {spaces : List Char} (isRun : IsRun isSpace spaces rest) :
    skipSpace (spaces ++ rest) = rest :=
  isRun.dropWhile_append

theorem exists_spaces (cs : List Char) :
    ∃ spaces, cs = spaces ++ skipSpace cs ∧ IsRun isSpace spaces (skipSpace cs) :=
  ⟨_, List.takeWhile_append_dropWhile.symm, isRun_takeWhile isSpace cs⟩

theorem skipSpace_skipSpace (cs : List Char) : skipSpace (skipSpace cs) = skipSpace cs := by
  obtain ⟨spaces, _, isRun⟩ := exists_spaces cs
  have isRun' : IsRun isSpace [] (skipSpace cs) := ⟨by simp, isRun.ends⟩
  exact skipSpace_append isRun'

/-- White space in front of a text is skipped whatever stands behind the text. -/
theorem exists_spaces_before {taken : List Char} (marked : IsMarked taken)
    (next_eq : skipSpace cs = taken ++ rest) :
    ∃ spaces, cs = spaces ++ (taken ++ rest) ∧
      ∀ rest', skipSpace (spaces ++ (taken ++ rest')) = taken ++ rest' := by
  obtain ⟨spaces, cs_eq, isRun⟩ := exists_spaces cs
  rw [next_eq] at cs_eq isRun
  exact ⟨spaces, cs_eq, fun rest' =>
    skipSpace_append (isRun.of_head?_eq (alike_append marked rest rest').head_eq)⟩

/-- White space in front of what a reader takes off goes with it. -/
theorem CutsOff.skipSpace {γ : Type} {reader : List Char → Option γ} {result : List Char → γ}
    (cuts : CutsOff reader result (skipSpace cs) rest) :
    CutsOff (fun cs => reader (skipSpace cs)) result cs rest := by
  obtain ⟨taken, marked, next_eq, reads⟩ := cuts
  obtain ⟨spaces, cs_eq, skips⟩ := exists_spaces_before marked next_eq
  refine ⟨spaces ++ taken, marked.append_left spaces, by rw [cs_eq, List.append_assoc],
    fun rest' => ?_⟩
  simp only [List.append_assoc]
  rw [skips rest', reads]

theorem afterWord_eq_some_iff {word : String} :
    afterWord word cs = some rest ↔ cs = word.toList ++ rest := by
  unfold afterWord
  rw [← String.length_toList]
  constructor
  · intro read
    split at read
    · next stands =>
        obtain ⟨behind, rfl⟩ := List.isPrefixOf_iff_prefix.mp stands
        rw [List.drop_left, Option.some.injEq] at read
        rw [read]
    · cases read
  · rintro rfl
    simp

theorem afterWord_append (word : String) (rest : List Char) :
    afterWord word (word.toList ++ rest) = some rest :=
  afterWord_eq_some_iff.mpr rfl

theorem afterWord_cutsOff {word : String} (marked : IsMarked word.toList)
    (read : afterWord word cs = some rest) : CutsOff (afterWord word) id cs rest :=
  ⟨word.toList, marked, afterWord_eq_some_iff.mp read, afterWord_append word⟩

/-- A word is not there where another character follows white space. -/
theorem afterWord_eq_none_of_head? {word : String} {c : Char}
    (head_eq : cs.head? = some c) (other : word.toList.head? ≠ some c) (filled : word.toList ≠ []) :
    afterWord word cs = none := by
  rw [Option.eq_none_iff_forall_ne_some]
  intro behind stands
  rw [afterWord_eq_some_iff.mp stands, head?_append_of_ne_nil filled] at head_eq
  exact other head_eq

theorem needSpace_eq_skipSpace (read : needSpace cs = some rest) : rest = skipSpace cs := by
  cases cs with
  | nil => cases read
  | cons c others =>
      rw [needSpace] at read
      split at read
      · next space =>
          cases read
          rw [skipSpace, skipSpace, List.dropWhile_cons_of_pos space]
      · cases read

/-- White space is taken off up to what is behind it. -/
theorem needSpace_takesOff (read : needSpace cs = some rest) :
    TakesOff needSpace id cs rest := by
  cases cs with
  | nil => cases read
  | cons c others =>
      rw [needSpace] at read
      split at read
      · next space =>
          obtain ⟨spaces, others_eq, isRun⟩ := exists_spaces others
          rw [Option.some.injEq] at read
          rw [read] at others_eq isRun
          refine ⟨c :: spaces, by rw [others_eq, List.cons_append], fun rest' alike => ?_⟩
          rw [List.cons_append, needSpace, if_pos space,
            skipSpace_append (isRun.of_head?_eq alike.head_eq), id]
      · cases read

theorem head?_of_needSpace (read : needSpace cs = some rest) :
    ∃ c, cs.head? = some c ∧ isSpace c = true := by
  cases cs with
  | nil => cases read
  | cons c others =>
      rw [needSpace] at read
      split at read
      · next space => exact ⟨c, rfl, space⟩
      · cases read

/-- A mark that begins nowhere in front of another one does not depend on what is behind that. -/
theorem beginsNowhere_append_iff {mark content : List Char} (rest : List Char) :
    BeginsNowhere mark content (mark ++ rest) ↔ BeginsNowhere mark content mark := by
  refine forall_congr' fun suffix => forall_congr' fun _ => forall_congr' fun _ => not_congr ?_
  rw [← List.append_assoc]
  constructor
  · intro stands
    exact List.prefix_of_prefix_length_le stands (List.prefix_append _ _)
      (by rw [List.length_append]; omega)
  · exact fun stands => stands.trans (List.prefix_append _ _)

theorem cutFrom_eq_some_iff {mark seen seen' : List Char} (filled : mark ≠ []) :
    cutFrom mark seen cs = some (seen', rest) ↔
      ∃ content, seen' = content.reverse ++ seen ∧ cs = content ++ (mark ++ rest) ∧
        BeginsNowhere mark content (mark ++ rest) := by
  induction cs generalizing seen with
  | nil => simp [cutFrom, filled]
  | cons c others ih =>
      rw [cutFrom]
      -- where the mark stands, the content in front of it is empty
      by_cases stands : mark <+: c :: others
      · rw [if_pos (List.isPrefixOf_iff_prefix.mpr stands), Option.some.injEq, Prod.mk.injEq]
        obtain ⟨behind, text_eq⟩ := stands
        rw [← text_eq, List.drop_left]
        constructor
        · rintro ⟨rfl, rfl⟩
          exact ⟨[], rfl, rfl,
            fun suffix isSuffix filled => absurd (List.suffix_nil.mp isSuffix) filled⟩
        · rintro ⟨content, rfl, text_eq', nowhere⟩
          cases content with
          | nil => exact ⟨rfl, List.append_cancel_left text_eq'⟩
          | cons d content =>
              refine absurd ?_ (nowhere (d :: content) List.suffix_rfl (List.cons_ne_nil d content))
              rw [← text_eq']
              exact List.prefix_append _ _
      · rw [if_neg (mt List.isPrefixOf_iff_prefix.mp stands), ih]
        constructor
        · rintro ⟨content, rfl, rfl, nowhere⟩
          refine ⟨c :: content, by simp, rfl, fun suffix isSuffix filled => ?_⟩
          rcases List.suffix_cons_iff.mp isSuffix with rfl | isSuffix
          · exact stands
          · exact nowhere suffix isSuffix filled
        · rintro ⟨content, rfl, text_eq, nowhere⟩
          cases content with
          | nil =>
              refine absurd ?_ stands
              rw [text_eq]
              exact List.prefix_append _ _
          | cons d content =>
              obtain ⟨rfl, rfl⟩ := List.cons.inj text_eq
              exact ⟨content, by simp, rfl, nowhere.of_cons.2⟩

/-- A text is cut behind the first occurrence of a mark. -/
theorem cutAfter_eq_some_iff {mark content : List Char} (filled : mark ≠ []) :
    cutAfter mark cs = some (content, rest) ↔
      cs = content ++ (mark ++ rest) ∧ BeginsNowhere mark content mark := by
  rw [cutAfter, Option.map_eq_some_iff, ← beginsNowhere_append_iff rest]
  constructor
  · rintro ⟨⟨seen, behind⟩, found, same⟩
    obtain ⟨rfl, rfl⟩ := Prod.mk.inj same
    obtain ⟨content, rfl, cs_eq, nowhere⟩ := (cutFrom_eq_some_iff filled).mp found
    simpa using And.intro cs_eq nowhere
  · rintro ⟨cs_eq, nowhere⟩
    exact ⟨(content.reverse, rest),
      (cutFrom_eq_some_iff filled).mpr ⟨content, by simp, cs_eq, nowhere⟩, by simp⟩

theorem cutAfter_cutsOff {mark content : List Char} (marked : IsMarked mark)
    (read : cutAfter mark cs = some (content, rest)) :
    CutsOff (cutAfter mark) (fun rest => (content, rest)) cs rest := by
  obtain ⟨cs_eq, nowhere⟩ := (cutAfter_eq_some_iff marked.ne_nil).mp read
  refine ⟨content ++ mark, marked.append_left content, by rw [cs_eq, List.append_assoc],
    fun rest' => ?_⟩
  rw [cutAfter_eq_some_iff marked.ne_nil, List.append_assoc]
  exact ⟨rfl, nowhere⟩

theorem readQuoted_cutsOff {content : List Char} (read : readQuoted cs = some (content, rest)) :
    CutsOff readQuoted (fun rest => (content, rest)) cs rest := by
  cases cs with
  | nil => cases read
  | cons c others =>
      rw [readQuoted] at read
      split at read
      · next quote =>
          have noSpace : isSpace c = false := by
            simp only [Bool.or_eq_true, beq_iff_eq] at quote
            rcases quote with rfl | rfl <;> decide
          have marked : IsMarked [c] := ⟨c, List.mem_singleton_self c, noSpace⟩
          obtain ⟨taken, _, rfl, reads⟩ := cutAfter_cutsOff marked read
          refine ⟨c :: taken, marked.append_right taken, rfl, fun rest' => ?_⟩
          rw [List.cons_append, readQuoted, if_pos quote, reads]
      · cases read

end Words

section Names

variable {cs rest : List Char}

theorem readName_takesOff {name : List Char} (read : readName cs = some (name, rest)) :
    TakesOff readName (fun rest => (name, rest)) cs rest := by
  cases cs with
  | nil => cases read
  | cons c others =>
      rw [readName] at read
      split at read
      · next start =>
          obtain ⟨rfl, rest_eq⟩ := Prod.mk.inj (Option.some.inj read)
          have isRun := isRun_takeWhile isNameChar others
          rw [rest_eq] at isRun
          refine ⟨c :: others.takeWhile isNameChar, ?_, fun rest' alike => ?_⟩
          · rw [List.cons_append, ← rest_eq, List.takeWhile_append_dropWhile]
          · have isRun' := isRun.of_head?_eq alike.head_eq
            rw [List.cons_append, readName, if_pos start, isRun'.takeWhile_append,
              isRun'.dropWhile_append]
      · cases read

theorem readQName_of_single {first : List Char} (read : readName cs = some (first, rest))
    (single : rest.head? ≠ some ':') : readQName cs = some (⟨[], first⟩, rest) := by
  simp only [readQName, read, Option.bind_eq_bind, Option.bind_some]
  split
  · simp at single
  · rfl

theorem readQName_takesOff {name : QName} (read : readQName cs = some (name, rest)) :
    TakesOff readQName (fun rest => (name, rest)) cs rest := by
  obtain ⟨⟨first, middle⟩, readFirst, readRest⟩ := Option.bind_eq_some_iff.mp read
  by_cases colon : middle.head? = some ':'
  · refine (readName_takesOff readFirst).bind ?_
    obtain ⟨behind, rfl⟩ := List.head?_eq_some_iff.mp colon
    obtain ⟨⟨second, after⟩, readSecond, readEnd⟩ := Option.bind_eq_some_iff.mp readRest
    obtain ⟨taken, rfl, reads⟩ := readName_takesOff readSecond
    dsimp only at readEnd
    split at readEnd
    · cases readEnd
    · next single =>
        cases readEnd
        refine ⟨':' :: taken, rfl, fun rest' alike => ?_⟩
        simp only [List.cons_append]
        rw [reads rest' alike]
        simpa [alike.head_eq] using single
  · rw [readQName_of_single readFirst colon, Option.some.injEq, Prod.mk.injEq] at read
    obtain ⟨rfl, rfl⟩ := read
    obtain ⟨taken, cs_eq, reads⟩ := readName_takesOff readFirst
    exact ⟨taken, cs_eq, fun rest' alike =>
      readQName_of_single (reads rest' alike) (alike.head_eq ▸ colon)⟩

end Names

end Stencil.Xml
