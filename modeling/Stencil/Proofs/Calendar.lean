import Mathlib.Algebra.Group.Nat.Defs
import Stencil.Calendar
import Stencil.Proofs.Text.Letter
import Stencil.Proofs.Text.Words

/-!
# Dates of revisions

A revision gives a date as a day, the name of a month and a year, with blanks between and around
them.  `IsRevisionOf` is that grammar, written down without the reader: which texts write a date.
The reader accepts exactly these texts for the dates of the calendar, and answers with the ISO form
of the date, from which the date can be read again.
-/

namespace Stencil.Date

open Text

/-! ### The ISO form -/

theorem length_paddedDigits (width n : Nat) : (paddedDigits width n).length = width := by
  induction width generalizing n with
  | zero => rfl
  | succ width ih => rw [paddedDigits, List.length_append, ih, List.length_singleton]

theorem isAsciiDigit_of_mem_paddedDigits {width n : Nat} :
    ∀ c ∈ paddedDigits width n, isAsciiDigit c = true := by
  induction width generalizing n with
  | zero => simp [paddedDigits]
  | succ width ih =>
      intro c cMem
      rcases List.mem_append.mp cMem with inFront | last
      · exact ih c inFront
      · rw [List.mem_singleton.mp last]
        exact isAsciiDigit_hexDigit (n % 10) (Nat.mod_lt n (by decide))

/-- Padded digits write the number that they were made from. -/
theorem decimalValue?_paddedDigits {width n : Nat} (fits : n < 10 ^ width) :
    decimalValue? (paddedDigits width n) = some n := by
  induction width generalizing n with
  | zero =>
      obtain rfl : n = 0 := by simpa using fits
      rfl
  | succ width ih =>
      have front_fits : n / 10 < 10 ^ width := by
        rw [Nat.pow_succ] at fits
        omega
      rw [paddedDigits, decimalValue?_concat, ih front_fits,
        digitValue?_hexDigit (n % 10) (Nat.mod_lt n (by decide))]
      simp only [Option.bind_some, Option.map_some, Option.some.injEq]
      omega

theorem hyphen_notMem_paddedDigits (width n : Nat) : '-' ∉ paddedDigits width n := by
  intro hyphenMem
  exact absurd (isAsciiDigit_of_mem_paddedDigits _ hyphenMem) (by decide)

theorem daysIn_le (year month : Nat) : daysIn year month ≤ 31 := by
  unfold daysIn
  split
  · split <;> omega
  all_goals omega

/-- The bounds of a date of the calendar. -/
theorem bounds_of_isValid {date : Date} (valid : date.isValid = true) :
    1 ≤ date.year ∧ date.year ≤ 9999 ∧ 1 ≤ date.month ∧ date.month ≤ 12 ∧ 1 ≤ date.day ∧
      date.day ≤ 31 := by
  simp only [isValid, Bool.and_eq_true, decide_eq_true_eq] at valid
  have days_le := daysIn_le date.year date.month
  omega

/-- The ISO form of a date of the calendar reads back as the date. -/
theorem ofIso?_iso {date : Date} (valid : date.isValid = true) : ofIso? date.iso = some date := by
  have bounds := bounds_of_isValid valid
  have cut (width n : Nat) (rest : List Char) :
      splitWhere (· == '-') (paddedDigits width n ++ '-' :: rest) =
        paddedDigits width n :: splitWhere (· == '-') rest := by
    rw [splitWhere_append_mark, splitWhere_of_notMem (hyphen_notMem_paddedDigits width n),
      List.singleton_append]
  have pieces_eq : splitWhere (· == '-') date.isoChars =
      [paddedDigits 4 date.year, paddedDigits 2 date.month, paddedDigits 2 date.day] := by
    rw [isoChars, List.append_assoc, List.cons_append, cut, cut,
      splitWhere_of_notMem (hyphen_notMem_paddedDigits 2 date.day)]
  have year_eq := decimalValue?_paddedDigits (show date.year < 10 ^ 4 by omega)
  have month_eq := decimalValue?_paddedDigits (show date.month < 10 ^ 2 by omega)
  have day_eq := decimalValue?_paddedDigits (show date.day < 10 ^ 2 by omega)
  simp [ofIso?, iso, pieces_eq, year_eq, month_eq, day_eq, valid]

/-! ### The parts of a revision -/

/-- Some digits write a day: one or two of ASCII, or one of any script behind a 1 or a 2. -/
structure WritesDay (day : Nat) (digits : List Char) : Prop where
  value : decimalValue? digits = some day
  shape : (∃ c, digits = [c] ∧ isAsciiDigit c = true) ∨
    ∃ c d, digits = [c, d] ∧ isAsciiDigit c = true ∧ (isAsciiDigit d = true ∨ c = '1' ∨ c = '2')

/-- A text spells the name of a month, in full or cut to three letters, in letters of any
case. -/
def SpellsMonth (month : Nat) (text : List Char) : Prop :=
  ∃ index name, monthNames[index]? = some name ∧ month = index + 1 ∧
    (text.map asciiLower = name.toList ∨ text.map asciiLower = name.toList.take 3)

/-- Some digits write a year: four of any script. -/
structure WritesYear (year : Nat) (digits : List Char) : Prop where
  value : decimalValue? digits = some year
  length_eq : digits.length = 4

theorem writesDay_single_iff {c : Char} {day : Nat} :
    WritesDay day [c] ↔ isAsciiDigit c = true ∧ day = c.toNat - 48 := by
  constructor
  · rintro ⟨value, shape⟩
    have ascii : isAsciiDigit c = true := by simpa using shape
    rw [decimalValue?_singleton, digitValue?_of_isAsciiDigit ascii] at value
    exact ⟨ascii, (Option.some.inj value).symm⟩
  · rintro ⟨ascii, rfl⟩
    refine ⟨?_, .inl ⟨c, rfl, ascii⟩⟩
    rw [decimalValue?_singleton, digitValue?_of_isAsciiDigit ascii]

theorem writesDay_pair_iff {c d : Char} {day units : Nat} (units_eq : digitValue? d = some units) :
    WritesDay day [c, d] ↔ isAsciiDigit c = true ∧
      (isAsciiDigit d = true ∨ c = '1' ∨ c = '2') ∧ day = 10 * (c.toNat - 48) + units := by
  constructor
  · rintro ⟨value, shape⟩
    have scripts : isAsciiDigit c = true ∧ (isAsciiDigit d = true ∨ c = '1' ∨ c = '2') := by
      simpa using shape
    rw [decimalValue?_pair, digitValue?_of_isAsciiDigit scripts.1, units_eq] at value
    exact ⟨scripts.1, scripts.2, (Option.some.inj value).symm⟩
  · rintro ⟨ascii, second, rfl⟩
    refine ⟨?_, .inr ⟨c, d, rfl, ascii, second⟩⟩
    rw [decimalValue?_pair, digitValue?_of_isAsciiDigit ascii, units_eq]
    rfl

theorem dayNumber?_single_eq_some_iff {c : Char} {day : Nat} :
    dayNumber? [c] = some day ↔ WritesDay day [c] ∧ 1 ≤ day ∧ day ≤ 31 := by
  rw [writesDay_single_iff, dayNumber?, isAsciiDigit_iff]
  simp only [Bool.and_eq_true, decide_eq_true_eq, char_le_iff, Char.reduceToNat]
  split
  · next bounds =>
      have ascii : isAsciiDigit c = true := isAsciiDigit_iff.mpr (by omega)
      rw [digitValue?_of_isAsciiDigit ascii, Option.some.injEq]
      omega
  · simp only [reduceCtorEq, false_iff]
    omega

theorem dayNumber?_pair_eq_some_iff {c d : Char} {day : Nat} :
    dayNumber? [c, d] = some day ↔ WritesDay day [c, d] ∧ 1 ≤ day ∧ day ≤ 31 := by
  cases units_eq : digitValue? d with
  | none =>
      have unread : ¬WritesDay day [c, d] := by
        rintro ⟨value, _⟩
        simp [decimalValue?_pair, units_eq] at value
      simp [dayNumber?, units_eq, unread]
  | some units =>
      have small := digitValue?_lt units_eq
      have ascii_units : 48 ≤ d.toNat ∧ d.toNat ≤ 57 → units = d.toNat - 48 := by
        intro bounds
        rw [digitValue?_of_isAsciiDigit (isAsciiDigit_iff.mpr bounds)] at units_eq
        exact (Option.some.inj units_eq).symm
      rw [writesDay_pair_iff units_eq]
      simp only [dayNumber?, units_eq, isAsciiDigit_iff, Bool.and_eq_true, Bool.or_eq_true,
        beq_iff_eq, decide_eq_true_eq, char_le_iff, ← Char.toNat_inj, Char.reduceToNat]
      split
      · rw [Option.some.injEq]
        omega
      · split
        · rw [Option.some.injEq]
          omega
        · split
          · rw [Option.some.injEq]
            omega
          · simp only [reduceCtorEq, false_iff]
            omega

/-- The days that are read are those of the longest months, written with one digit or two. -/
theorem dayNumber?_eq_some_iff {digits : List Char} {day : Nat} :
    dayNumber? digits = some day ↔ WritesDay day digits ∧ 1 ≤ day ∧ day ≤ 31 := by
  match digits with
  | [c] => exact dayNumber?_single_eq_some_iff
  | [c, d] => exact dayNumber?_pair_eq_some_iff
  | [] =>
      have unwritten : ¬WritesDay day [] := fun writes => by simpa using writes.shape
      simp [dayNumber?, unwritten]
  | c :: d :: e :: rest =>
      have unwritten : ¬WritesDay day (c :: d :: e :: rest) := fun writes => by
        simpa using writes.shape
      simp [dayNumber?, unwritten]

/-- No two months are spelled alike. -/
theorem monthNames_apart : monthNames.Pairwise fun first second =>
    ∀ small ∈ [first.toList, first.toList.take 3],
      small ≠ second.toList ∧ small ≠ second.toList.take 3 := by
  decide +kernel

/-- The months that are read are those whose name is spelled. -/
theorem monthNumber?_eq_some_iff {text : List Char} {month : Nat} :
    monthNumber? text = some month ↔ SpellsMonth month text := by
  rw [monthNumber?, Option.map_eq_some_iff]
  simp only [List.findIdx?_eq_some_iff_getElem, Bool.or_eq_true, beq_iff_eq]
  constructor
  · rintro ⟨index, ⟨inside, spelled, _⟩, rfl⟩
    exact ⟨index, _, List.getElem?_eq_getElem inside, rfl, spelled.imp Eq.symm Eq.symm⟩
  · rintro ⟨index, name, name_eq, rfl, spelled⟩
    obtain ⟨inside, rfl⟩ := List.getElem?_eq_some_iff.mp name_eq
    refine ⟨index, ⟨inside, spelled.imp Eq.symm Eq.symm, ?_⟩, rfl⟩
    intro earlier before spelledEarlier
    have apart := List.pairwise_iff_getElem.mp monthNames_apart earlier index
      (before.trans inside) inside before
    have differs : text.map asciiLower ≠ monthNames[index].toList ∧
        text.map asciiLower ≠ monthNames[index].toList.take 3 := by
      apply apart
      rcases spelledEarlier with whole | cut
      · simp [whole]
      · simp [cut]
    rcases spelled with whole | cut
    · exact differs.1 whole
    · exact differs.2 cut

theorem isSmall_of_mem_monthNames :
    ∀ name ∈ monthNames, name.toList ≠ [] ∧ name.toList.all isSmall = true := by
  decide +kernel

/-- A spelled month is a word of letters. -/
theorem SpellsMonth.isLetter {month : Nat} {text : List Char} (spells : SpellsMonth month text) :
    text ≠ [] ∧ ∀ c ∈ text, Text.isLetter c = true := by
  obtain ⟨index, name, name_eq, _, spelled⟩ := spells
  obtain ⟨filled, small⟩ := isSmall_of_mem_monthNames name (List.mem_of_getElem? name_eq)
  have subset : ∀ c ∈ text.map asciiLower, c ∈ name.toList := by
    rcases spelled with whole | cut
    · simp [whole]
    · rw [cut]
      exact fun c cMem => List.mem_of_mem_take cMem
  constructor
  · rintro rfl
    rcases spelled with whole | cut
    · exact filled whole.symm
    · have empty : name.toList.take 3 = [] := cut.symm
      rw [List.take_eq_nil_iff] at empty
      exact filled (empty.resolve_left (by decide))
  · intro c cMem
    apply isLetter_of_isSmall_asciiLower
    exact List.all_eq_true.mp small _ (subset _ (List.mem_map_of_mem cMem))

/-! ### Revisions -/

/-- A text gives a day by its digits, with anything but blanks behind a comma. -/
def GivesDay (day : Nat) (text : List Char) : Prop :=
  ∃ digits, WritesDay day digits ∧
    (text = digits ∨ ∃ note, (∀ c ∈ note, isBlank c = false) ∧ text = digits ++ ',' :: note)

/-- A text gives a month by its name, with commas behind it. -/
def GivesMonth (month : Nat) (text : List Char) : Prop :=
  ∃ name count, SpellsMonth month name ∧ text = name ++ List.replicate count ','

/-- A text gives a date as revisions do: day, month and year with blanks between and around
them. -/
inductive IsRevisionOf (date : Date) : List Char → Prop
  | intro {front day gap month gap' year back : List Char} :
      AllBlank front → GivesDay date.day day → IsGap gap → GivesMonth date.month month →
      IsGap gap' → WritesYear date.year year → AllBlank back →
        IsRevisionOf date (front ++ day ++ (gap ++ month ++ (gap' ++ year ++ back)))

theorem WritesDay.isWord {day : Nat} {digits : List Char} (writes : WritesDay day digits) :
    IsWord digits ∧ ',' ∉ digits := by
  refine ⟨⟨?_, isBlank_of_decimalValue? writes.value⟩, ?_⟩
  · rintro rfl
    simpa using writes.shape
  · intro commaMem
    obtain ⟨digit, digit_eq⟩ := exists_digitValue?_of_mem writes.value ',' commaMem
    have noDigit : digitValue? ',' = none := by decide
    rw [noDigit] at digit_eq
    cases digit_eq

/-- The day that a text gives is written before its first comma. -/
theorem givesDay_iff {text : List Char} {day : Nat} (unblank : ∀ c ∈ text, isBlank c = false) :
    GivesDay day text ↔ WritesDay day (cutAt ',' text).1 := by
  constructor
  · rintro ⟨digits, writes, rfl | ⟨note, _, rfl⟩⟩
    · rwa [cutAt_eq_none_iff.mpr ⟨writes.isWord.2, rfl⟩]
    · rwa [cutAt_eq_some_iff.mpr ⟨writes.isWord.2, rfl⟩]
  · intro writes
    refine ⟨_, writes, ?_⟩
    cases cut : cutAt ',' text with
    | mk digits behind =>
        cases behind with
        | some note =>
            obtain ⟨_, rfl⟩ := cutAt_eq_some_iff.mp cut
            have note_unblank : ∀ c ∈ note, isBlank c = false := fun c cMem =>
              unblank c (List.mem_append_right digits (List.mem_cons_of_mem ',' cMem))
            exact .inr ⟨note, note_unblank, rfl⟩
        | none => exact .inl (cutAt_eq_none_iff.mp cut).2

/-- The month that a text gives is spelled before the commas that end it. -/
theorem givesMonth_iff {text : List Char} {month : Nat} :
    GivesMonth month text ↔ SpellsMonth month (text.reverse.dropWhile (· == ',')).reverse := by
  constructor
  · rintro ⟨name, count, spells, rfl⟩
    have uncut : (name.reverse.dropWhile (· == ',')) = name.reverse := by
      rw [List.dropWhile_eq_self_iff]
      intro filled
      have letter := spells.isLetter.2 _ (List.mem_reverse.mp (List.getElem_mem filled))
      intro comma
      rw [beq_iff_eq.mp comma] at letter
      cases letter
    have commas : ∀ c ∈ List.replicate count ',', (c == ',') = true := fun c cMem =>
      beq_iff_eq.mpr (List.eq_of_mem_replicate cMem)
    rwa [List.reverse_append, List.reverse_replicate, List.dropWhile_append_of_pos commas, uncut,
      List.reverse_reverse]
  · intro spells
    refine ⟨_, (text.reverse.takeWhile (· == ',')).length, spells, ?_⟩
    have commas : text.reverse.takeWhile (· == ',') =
        List.replicate (text.reverse.takeWhile (· == ',')).length ',' :=
      List.eq_replicate_iff.mpr ⟨rfl, fun c cMem => by simpa using List.mem_takeWhile_imp cMem⟩
    rw [← List.reverse_inj, List.reverse_append, List.reverse_replicate, ← commas,
      List.reverse_reverse, List.takeWhile_append_dropWhile]

theorem GivesDay.isWord {day : Nat} {text : List Char} (gives : GivesDay day text) :
    IsWord text := by
  rcases gives with ⟨digits, writes, rfl | ⟨note, note_unblank, rfl⟩⟩
  · exact writes.isWord.1
  · have comma_unblank : isBlank ',' = false := rfl
    constructor
    · simp
    · intro c cMem
      rcases List.mem_append.mp cMem with inDigits | later
      · exact writes.isWord.1.unblank c inDigits
      · rcases List.mem_cons.mp later with rfl | inNote
        · exact comma_unblank
        · exact note_unblank c inNote

theorem GivesMonth.isWord {month : Nat} {text : List Char} (gives : GivesMonth month text) :
    IsWord text := by
  rcases gives with ⟨name, count, spells, rfl⟩
  constructor
  · exact List.append_ne_nil_of_left_ne_nil spells.isLetter.1 _
  · intro c cMem
    rcases List.mem_append.mp cMem with inName | comma
    · exact isBlank_of_isLetter (spells.isLetter.2 c inName)
    · rw [List.eq_of_mem_replicate comma]
      rfl

theorem WritesYear.isWord {year : Nat} {digits : List Char} (writes : WritesYear year digits) :
    IsWord digits := by
  refine ⟨?_, isBlank_of_decimalValue? writes.value⟩
  rintro rfl
  cases writes.length_eq

theorem yearNumber?_eq_some_iff {digits : List Char} {year : Nat} :
    yearNumber? digits = some year ↔ WritesYear year digits := by
  rw [yearNumber?]
  constructor
  · intro read
    split at read
    · next four => exact ⟨read, beq_iff_eq.mp four⟩
    · cases read
  · rintro ⟨value, length_eq⟩
    rw [if_pos (beq_iff_eq.mpr length_eq), value]

/-- A revision is read by its three words. -/
theorem ofRevision?_eq_some_iff_words {cs : List Char} {date : Date} :
    ofRevision? cs = some date ↔ date.isValid = true ∧ ∃ day month year,
      words cs = [day, month, year] ∧ dayNumber? (cutAt ',' day).1 = some date.day ∧
      monthNumber? (month.reverse.dropWhile (· == ',')).reverse = some date.month ∧
      yearNumber? year = some date.year := by
  rw [ofRevision?]
  split
  · next day month year words_eq =>
      simp only [Option.bind_eq_bind, Option.bind_eq_some_iff, words_eq]
      constructor
      · rintro ⟨dayNumber, day_eq, monthNumber, month_eq, yearNumber, year_eq, read⟩
        split at read
        · next valid =>
            obtain rfl := Option.some.inj read
            exact ⟨valid, day, month, year, rfl, day_eq, month_eq, year_eq⟩
        · cases read
      · rintro ⟨valid, _, _, _, same, day_eq, month_eq, year_eq⟩
        cases same
        exact ⟨_, day_eq, _, month_eq, _, year_eq, if_pos valid⟩
  · next otherwise =>
      constructor
      · intro read
        cases read
      · rintro ⟨_, day, month, year, words_eq, _⟩
        exact absurd words_eq (otherwise day month year)

/-- The dates that are read from a text are those of the calendar that it gives. -/
theorem ofRevision?_eq_some_iff {cs : List Char} {date : Date} :
    ofRevision? cs = some date ↔ date.isValid = true ∧ IsRevisionOf date cs := by
  rw [ofRevision?_eq_some_iff_words]
  constructor
  · rintro ⟨valid, day, month, year, words_eq, day_eq, month_eq, year_eq⟩
    obtain ⟨dayWord, _, _, front, gap, gap', back, frontBlank, isGap, isGap', backBlank, rfl⟩ :=
      words_eq_three_iff.mp words_eq
    refine ⟨valid, .intro frontBlank ?_ isGap ?_ isGap' ?_ backBlank⟩
    · exact (givesDay_iff dayWord.unblank).mpr (dayNumber?_eq_some_iff.mp day_eq).1
    · exact givesMonth_iff.mpr (monthNumber?_eq_some_iff.mp month_eq)
    · exact yearNumber?_eq_some_iff.mp year_eq
  · rintro ⟨valid, revision⟩
    cases revision with
    | intro frontBlank givesDay isGap givesMonth isGap' writesYear backBlank =>
        have bounds := bounds_of_isValid valid
        refine ⟨valid, _, _, _, words_eq_three_iff.mpr ⟨givesDay.isWord, givesMonth.isWord,
          writesYear.isWord, _, _, _, _, frontBlank, isGap, isGap', backBlank, rfl⟩, ?_, ?_, ?_⟩
        · rw [dayNumber?_eq_some_iff]
          exact ⟨(givesDay_iff givesDay.isWord.unblank).mp givesDay, by omega, by omega⟩
        · exact monthNumber?_eq_some_iff.mpr (givesMonth_iff.mp givesMonth)
        · exact yearNumber?_eq_some_iff.mpr writesYear

theorem revisionIso_of_ofRevision? {text : String} {date : Date}
    (read : ofRevision? text.toList = some date) : revisionIso text = date.iso := by
  rw [revisionIso, read]

theorem iso_ne_empty (date : Date) : date.iso ≠ "" := by
  intro empty
  have length_eq := congrArg (fun text : String => text.toList.length) empty
  simp [iso, isoChars, length_paddedDigits] at length_eq

/-- The ISO form tells the dates of the calendar apart. -/
theorem eq_of_iso_eq {date other : Date} (valid : date.isValid = true)
    (otherValid : other.isValid = true) (iso_eq : date.iso = other.iso) : date = other := by
  have read := ofIso?_iso valid
  rw [iso_eq, ofIso?_iso otherValid] at read
  exact (Option.some.inj read).symm

/-- What is not empty is the ISO form of the date that the text gives. -/
theorem exists_of_revisionIso_ne_empty {text : String} (filled : revisionIso text ≠ "") :
    ∃ date : Date, date.isValid = true ∧ IsRevisionOf date text.toList ∧
      revisionIso text = date.iso := by
  cases read : ofRevision? text.toList with
  | none =>
      rw [revisionIso, read] at filled
      exact absurd rfl filled
  | some date =>
      obtain ⟨valid, revision⟩ := ofRevision?_eq_some_iff.mp read
      exact ⟨date, valid, revision, revisionIso_of_ofRevision? read⟩

theorem revisionIso_eq_iso_iff {text : String} {date : Date} (valid : date.isValid = true) :
    revisionIso text = date.iso ↔ IsRevisionOf date text.toList := by
  constructor
  · intro iso_eq
    have filled : revisionIso text ≠ "" := by
      rw [iso_eq]
      exact iso_ne_empty date
    obtain ⟨other, otherValid, revision, other_eq⟩ := exists_of_revisionIso_ne_empty filled
    rwa [eq_of_iso_eq valid otherValid (iso_eq.symm.trans other_eq)]
  · intro revision
    exact revisionIso_of_ofRevision? (ofRevision?_eq_some_iff.mpr ⟨valid, revision⟩)

/-- A day is written by two digits, and one before the tenth by a single one. -/
theorem writesDay_paddedDigits {width day : Nat} (fits : width = 1 ∧ day < 10 ∨ width = 2)
    (days : day ≤ 31) : WritesDay day (paddedDigits width day) := by
  have ascii (n : Nat) : isAsciiDigit (hexDigit (n % 10)) = true :=
    isAsciiDigit_hexDigit (n % 10) (Nat.mod_lt n (by decide))
  rcases fits with ⟨rfl, small⟩ | rfl
  · exact ⟨decimalValue?_paddedDigits (by omega), .inl ⟨_, rfl, ascii day⟩⟩
  · exact ⟨decimalValue?_paddedDigits (by omega),
      .inr ⟨_, _, rfl, ascii (day / 10), .inl (ascii day)⟩⟩

theorem writesYear_paddedDigits {year : Nat} (fits : year < 10 ^ 4) :
    WritesYear year (paddedDigits 4 year) :=
  ⟨decimalValue?_paddedDigits fits, length_paddedDigits 4 year⟩

/-- The usual way of writing a date is among the revisions that give it. -/
theorem isRevisionOf_usual {date : Date} (valid : date.isValid = true) {width : Nat}
    (fits : width = 1 ∧ date.day < 10 ∨ width = 2) {comma : List Char}
    (optional : comma = [] ∨ comma = [',']) {name : List Char}
    (spells : SpellsMonth date.month name) (commas : Nat) {front gap gap' back : List Char}
    (frontBlank : AllBlank front) (isGap : IsGap gap) (isGap' : IsGap gap')
    (backBlank : AllBlank back) :
    IsRevisionOf date (front ++ (paddedDigits width date.day ++ comma) ++
      (gap ++ (name ++ List.replicate commas ',') ++
        (gap' ++ paddedDigits 4 date.year ++ back))) := by
  have bounds := bounds_of_isValid valid
  refine .intro frontBlank ⟨_, writesDay_paddedDigits fits (by omega), ?_⟩ isGap
    ⟨name, commas, spells, rfl⟩ isGap' (writesYear_paddedDigits (by omega)) backBlank
  rcases optional with rfl | rfl
  · exact .inl (List.append_nil _)
  · exact .inr ⟨[], by simp, rfl⟩

/-- Revisions are read exactly.  A date of the calendar is read from a text when the text gives it,
in the usual way or in another, and only then; what is read is always such a date, and its ISO form
reads back as the date. -/
theorem revisions_are_read_exactly :
    (∀ (date : Date) (text : String), date.isValid = true →
      (revisionIso text = date.iso ↔ IsRevisionOf date text.toList)) ∧
    (∀ text : String, revisionIso text ≠ "" → ∃ date : Date, date.isValid = true ∧
      IsRevisionOf date text.toList ∧ revisionIso text = date.iso) ∧
    (∀ date : Date, date.isValid = true → ofIso? date.iso = some date) ∧
    ∀ (date : Date) (width commas : Nat) (comma name front gap gap' back : List Char),
      date.isValid = true → width = 1 ∧ date.day < 10 ∨ width = 2 →
      comma = [] ∨ comma = [','] → SpellsMonth date.month name →
      AllBlank front → IsGap gap → IsGap gap' → AllBlank back →
      revisionIso (String.ofList (front ++ (paddedDigits width date.day ++ comma) ++
        (gap ++ (name ++ List.replicate commas ',') ++
          (gap' ++ paddedDigits 4 date.year ++ back)))) = date.iso := by
  refine ⟨?exact, ?converse, ?readable, ?usual⟩
  case exact => exact fun _ _ valid => revisionIso_eq_iso_iff valid
  case converse => exact fun _ filled => exists_of_revisionIso_ne_empty filled
  case readable => exact fun _ valid => ofIso?_iso valid
  case usual =>
    intro date width commas comma name front gap gap' back valid fits optional spells
      frontBlank isGap isGap' backBlank
    rw [revisionIso_eq_iso_iff valid, String.toList_ofList]
    exact isRevisionOf_usual valid fits optional spells commas frontBlank isGap isGap'
      backBlank

/-- The leap day of 2024 is read with commas, capitals and a wide blank. -/
theorem leapDay_is_read :
    revisionIso "29, FEB,,\u3000 2024\n" = "2024-02-29" ∧
      IsRevisionOf ⟨2024, 2, 29⟩ "29, FEB,,\u3000 2024\n".toList := by
  have read : revisionIso "29, FEB,,\u3000 2024\n" = Date.iso ⟨2024, 2, 29⟩ :=
    revisions_are_read_exactly.2.2.2 ⟨2024, 2, 29⟩ 2 2 [','] ['F', 'E', 'B'] [] [' ']
      ['\u3000', ' '] ['\n'] (by decide) (.inr rfl) (.inr rfl)
      ⟨1, "february", rfl, rfl, .inr (by decide)⟩ (by simp [AllBlank])
      ⟨by simp [AllBlank, isBlank], by simp⟩ ⟨by simp [AllBlank, isBlank], by simp⟩
      (by simp [AllBlank, isBlank])
  exact ⟨read, (revisions_are_read_exactly.1 ⟨2024, 2, 29⟩ _ (by decide)).mp read⟩

/-- There is no such day in the year before. -/
example : revisionIso "29 February 2023" = "" := by decide

end Stencil.Date
