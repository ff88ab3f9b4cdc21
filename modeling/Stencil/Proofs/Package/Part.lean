import Stencil.Package.Part
import Stencil.Proofs.Distinct
import Stencil.Proofs.Package.Archive
import Stencil.Proofs.Xml.Reading

/-!
# Reading order of text parts

The text parts of an archive are read by area (the body, the headers, the footers), within
an area by number, and those of one number as they are listed.  `IsReading` tells what is
read from an archive, and an archive has one reading only.  So the order of the entries
matters only where a name or a number is there twice, and an entry that is added leaves
what else is read as it was.
-/

namespace Stencil

/-- The last entry of an archive with a name has a content. -/
def Archive.EndsWith (archive : Archive) (name : String) (content : Bytes) : Prop :=
  ∃ before after, archive.entries = before ++ (name, content) :: after ∧
    name ∉ after.map (·.1)

namespace Archive

variable {archive : Archive} {name : String} {content : Bytes}

theorem content?_eq_some_iff : archive.content? name = some content ↔
    archive.EndsWith name content := by
  rw [content?, List.lookup_eq_some_iff]
  constructor
  · rintro ⟨after, before, entries_eq, others⟩
    refine ⟨before.reverse, after.reverse, ?_, ?_⟩
    · rw [← List.reverse_inj, entries_eq]
      simp
    · rw [List.map_reverse, List.mem_reverse]
      rintro nameMem
      obtain ⟨entry, entryMem, rfl⟩ := List.mem_map.mp nameMem
      simpa using others entry entryMem
  · rintro ⟨before, after, entries_eq, new⟩
    refine ⟨after.reverse, before.reverse, by simp [entries_eq], ?_⟩
    intro entry entryMem
    rw [bne_iff_ne]
    rintro rfl
    exact new (List.mem_map_of_mem (List.mem_reverse.mp entryMem))

theorem EndsWith.unique {other : Bytes} (ends : archive.EndsWith name content)
    (ends' : archive.EndsWith name other) : content = other := by
  rw [← content?_eq_some_iff] at ends ends'
  exact Option.some.inj (ends.symm.trans ends')

/-- With distinct names every entry is the last one with its name. -/
theorem endsWith_iff_mem (nodup : archive.names.Nodup) :
    archive.EndsWith name content ↔ (name, content) ∈ archive.entries := by
  constructor
  · rintro ⟨before, after, entries_eq, _⟩
    rw [entries_eq]
    exact List.mem_append_right before List.mem_cons_self
  · intro entryMem
    obtain ⟨before, after, entries_eq⟩ := List.append_of_mem entryMem
    refine ⟨before, after, entries_eq, ?_⟩
    rw [names, entries_eq, List.map_append, List.map_cons] at nodup
    exact (List.nodup_cons.mp nodup.of_append_right).1

end Archive

/-- The archive that a source is, if there is one. -/
def Source.archive? : Source → Option Archive
  | .memory package => package.archive?
  | .file _ package => package.bind Package.archive?

/-- The name of the part of a kind with digits. -/
def Part.nameOf (kind : String) (digits : List Char) : String :=
  "word/" ++ kind ++ String.ofList digits ++ ".xml"

/-- An archive of which every name is one line and no part has a number with too many digits. -/
structure Archive.IsPlain (archive : Archive) : Prop where
  singleLine : ∀ name ∈ archive.names, '\n' ∉ name.toList
  shortNumbers : ∀ kind ∈ ["header", "footer"], ∀ digits,
    (∀ c ∈ digits, Text.isDecimal c = true) → Part.nameOf kind digits ∈ archive.names →
      digits.length ≤ Part.digitLimit

theorem Archive.IsPlain.of_perm {archive other : Archive}
    (perm : other.entries.Perm archive.entries) (plain : archive.IsPlain) : other.IsPlain where
  singleLine := fun name nameMem => plain.singleLine name ((perm.map _).mem_iff.mp nameMem)
  shortNumbers := fun kind kindMem digits decimal listed =>
    plain.shortNumbers kind kindMem digits decimal ((perm.map _).mem_iff.mp listed)

/-- An archive with one more entry, which has a new name. -/
def Archive.IsExtended (archive extended : Archive) (name : String) (content : Bytes) : Prop :=
  name ∉ archive.names ∧ ∃ before after, archive.entries = before ++ after ∧
    extended.entries = before ++ (name, content) :: after

theorem Archive.IsExtended.endsWith {archive extended : Archive} {name : String} {content : Bytes}
    (isExtended : archive.IsExtended extended name content) : extended.EndsWith name content := by
  obtain ⟨new, before, after, entries_eq, extended_eq⟩ := isExtended
  refine ⟨before, after, extended_eq, fun later => new ?_⟩
  rw [Archive.names, entries_eq, List.map_append]
  exact List.mem_append_right _ later

namespace Part

open Text (isDecimal)

/-! ### Names and places -/

/-- The place of a text part: its area, which is the body, the headers or the footers, and its
number within. -/
inductive Ranked : String → (area number : Nat) → Prop
  | body : Ranked body 0 0
  | header {digits : List Char} (decimal : ∀ c ∈ digits, isDecimal c = true) :
      Ranked (nameOf "header" digits) 1 (number digits)
  | footer {digits : List Char} (decimal : ∀ c ∈ digits, isDecimal c = true) :
      Ranked (nameOf "footer" digits) 2 (number digits)

/-- A name of a text part. -/
def IsText (name : String) : Prop :=
  ∃ area number, Ranked name area number

theorem toList_nameOf (kind : String) (digits : List Char) :
    (nameOf kind digits).toList = "word/".toList ++ kind.toList ++ digits ++ ".xml".toList := by
  simp [nameOf]

theorem nameOf_inj {kind : String} {digits others : List Char} :
    nameOf kind digits = nameOf kind others ↔ digits = others := by
  simp [← String.toList_inj, toList_nameOf]

theorem nameOf_header_ne_footer (digits others : List Char) :
    nameOf "header" digits ≠ nameOf "footer" others := by
  simp [← String.toList_inj, toList_nameOf]

theorem nameOf_header_ne_body (digits : List Char) : nameOf "header" digits ≠ body := by
  simp [← String.toList_inj, toList_nameOf, body]

theorem nameOf_footer_ne_body (digits : List Char) : nameOf "footer" digits ≠ body := by
  simp [← String.toList_inj, toList_nameOf, body]

/-- A text part has one place. -/
theorem Ranked.unique {name : String} {area number area' number' : Nat}
    (ranked : Ranked name area number) (ranked' : Ranked name area' number') :
    area = area' ∧ number = number' := by
  cases ranked with
  | body =>
      generalize same : Part.body = name at ranked'
      cases ranked' with
      | body => exact ⟨rfl, rfl⟩
      | header => exact absurd same.symm (nameOf_header_ne_body _)
      | footer => exact absurd same.symm (nameOf_footer_ne_body _)
  | @header digits _ =>
      generalize same : nameOf "header" digits = name at ranked'
      cases ranked' with
      | body => exact absurd same (nameOf_header_ne_body _)
      | header => exact ⟨rfl, congrArg Part.number (nameOf_inj.mp same)⟩
      | footer => exact absurd same (nameOf_header_ne_footer _ _)
  | @footer digits _ =>
      generalize same : nameOf "footer" digits = name at ranked'
      cases ranked' with
      | body => exact absurd same (nameOf_footer_ne_body _)
      | header => exact absurd same.symm (nameOf_header_ne_footer _ _)
      | footer => exact ⟨rfl, congrArg Part.number (nameOf_inj.mp same)⟩

/-- The digits in a name without line feed are those between the kind and the extension. -/
theorem digits?_eq_some_iff {kind name : String} (singleLine : '\n' ∉ name.toList)
    {digits : List Char} :
    digits? kind name = some digits ↔
      name = nameOf kind digits ∧ ∀ c ∈ digits, isDecimal c = true := by
  rw [← String.toList_inj, toList_nameOf]
  generalize stem_eq : "word/".toList ++ kind.toList = stem
  constructor
  · intro found
    simp only [digits?, stem_eq] at found
    split at found
    · next shape =>
        cases found
        simp only [Bool.and_eq_true, List.isPrefixOf_iff_prefix, Bool.or_eq_true,
          beq_iff_eq] at shape
        obtain ⟨⟨rest, name_eq⟩, ending⟩ := shape
        rw [← name_eq, List.drop_left] at ending ⊢
        have isRun := Xml.isRun_takeWhile isDecimal rest
        have rest_eq : rest.takeWhile isDecimal ++ rest.dropWhile isDecimal = rest :=
          List.takeWhile_append_dropWhile
        refine ⟨?_, isRun.all⟩
        -- the other ending has a line feed, which the name has not
        rcases ending with ending | ending
        · rw [List.append_assoc, ← ending, rest_eq]
        · have feedMem : '\n' ∈ rest := by
            rw [← rest_eq, ending]
            exact List.mem_append_right _ (by decide)
          rw [← name_eq] at singleLine
          exact absurd (List.mem_append_right stem feedMem) singleLine
    · cases found
  · rintro ⟨name_eq, decimal⟩
    have isRun : Xml.IsRun isDecimal digits ".xml".toList := by
      refine ⟨decimal, fun c cMem => ?_⟩
      cases cMem
      decide
    have drop_eq : name.toList.drop stem.length = digits ++ ".xml".toList := by
      rw [name_eq, List.append_assoc, List.drop_left]
    have begins : stem.isPrefixOf name.toList = true := by
      rw [List.isPrefixOf_iff_prefix, name_eq, List.append_assoc]
      exact List.prefix_append stem _
    simp only [digits?, stem_eq, drop_eq, isRun.dropWhile_append, isRun.takeWhile_append, begins]
    rfl

/-- The number of the part of a kind with a name. -/
def number? (kind name : String) : Option Nat :=
  (digits? kind name).map number

section

variable {name : String} {n : Nat}

theorem number?_eq_some_iff {kind : String} (singleLine : '\n' ∉ name.toList) :
    number? kind name = some n ↔
      ∃ digits, (∀ c ∈ digits, isDecimal c = true) ∧ nameOf kind digits = name ∧
        number digits = n := by
  simp only [number?, Option.map_eq_some_iff, digits?_eq_some_iff singleLine]
  constructor
  · rintro ⟨digits, ⟨rfl, decimal⟩, rfl⟩
    exact ⟨digits, decimal, rfl, rfl⟩
  · rintro ⟨digits, decimal, rfl, rfl⟩
    exact ⟨digits, ⟨rfl, decimal⟩, rfl⟩

theorem number?_header_eq_some_iff (singleLine : '\n' ∉ name.toList) :
    number? "header" name = some n ↔ Ranked name 1 n := by
  rw [number?_eq_some_iff singleLine]
  constructor
  · rintro ⟨digits, decimal, rfl, rfl⟩
    exact .header decimal
  · intro ranked
    cases ranked with
    | header decimal => exact ⟨_, decimal, rfl, rfl⟩

theorem number?_footer_eq_some_iff (singleLine : '\n' ∉ name.toList) :
    number? "footer" name = some n ↔ Ranked name 2 n := by
  rw [number?_eq_some_iff singleLine]
  constructor
  · rintro ⟨digits, decimal, rfl, rfl⟩
    exact .footer decimal
  · intro ranked
    cases ranked with
    | footer decimal => exact ⟨_, decimal, rfl, rfl⟩

end

/-! ### Sorting -/

theorem insert_perm (part : String × Nat) (sorted : List (String × Nat)) :
    (insert part sorted).Perm (part :: sorted) := by
  induction sorted with
  | nil => exact .refl _
  | cons other rest ih =>
      rw [insert]
      split
      · exact .refl _
      · exact (ih.cons other).trans (.swap part other rest)

theorem pairwise_insert (part : String × Nat) {sorted : List (String × Nat)}
    (inOrder : sorted.Pairwise fun first second => first.2 ≤ second.2) :
    (insert part sorted).Pairwise fun first second => first.2 ≤ second.2 := by
  induction sorted with
  | nil => exact List.pairwise_singleton _ _
  | cons other rest ih =>
      obtain ⟨least, restInOrder⟩ := List.pairwise_cons.mp inOrder
      rw [insert]
      split
      · next less =>
          refine List.pairwise_cons.mpr ⟨?_, inOrder⟩
          rintro third (_ | ⟨_, thirdMem⟩)
          · exact less.le
          · exact less.le.trans (least third thirdMem)
      · next notLess =>
          refine List.pairwise_cons.mpr ⟨?_, ih restInOrder⟩
          intro third thirdMem
          rcases List.mem_cons.mp ((insert_perm part rest).mem_iff.mp thirdMem) with
            rfl | thirdMem
          · exact Nat.le_of_not_lt notLess
          · exact least third thirdMem

/-- A part is put behind the parts of its number. -/
theorem filter_insert (part : String × Nat) {sorted : List (String × Nat)}
    (inOrder : sorted.Pairwise fun first second => first.2 ≤ second.2) (n : Nat) :
    (insert part sorted).filter (·.2 == n) = (sorted ++ [part]).filter (·.2 == n) := by
  induction sorted with
  | nil => rfl
  | cons other rest ih =>
      obtain ⟨least, restInOrder⟩ := List.pairwise_cons.mp inOrder
      rw [insert]
      split
      · next less =>
          rw [List.filter_append]
          -- all numbers from here on are greater than that of the part
          by_cases same : part.2 = n
          · have noneLeft : (other :: rest).filter (·.2 == n) = [] := by
              rw [List.filter_eq_nil_iff]
              rintro third (_ | ⟨_, thirdMem⟩)
              · simpa using (same ▸ less).ne'
              · have greater := less.trans_le (least third thirdMem)
                simpa using (same ▸ greater).ne'
            rw [List.filter_cons_of_pos (by simpa using same), noneLeft]
            simp [same]
          · rw [List.filter_cons_of_neg (by simpa using same)]
            simp [same]
      · rw [List.cons_append, List.filter_cons, List.filter_cons, ih restInOrder]

theorem sort_append_singleton (parts : List (String × Nat)) (part : String × Nat) :
    sort (parts ++ [part]) = insert part (sort parts) := by
  rw [sort, List.foldl_append]
  rfl

theorem sort_perm (parts : List (String × Nat)) : (sort parts).Perm parts := by
  induction parts using List.reverseRecOn with
  | nil => exact .refl _
  | append_singleton parts part ih =>
      rw [sort_append_singleton]
      exact (insert_perm part _).trans ((ih.cons part).trans (List.perm_append_singleton _ _).symm)

theorem pairwise_sort (parts : List (String × Nat)) :
    (sort parts).Pairwise fun first second => first.2 ≤ second.2 := by
  induction parts using List.reverseRecOn with
  | nil => exact .nil
  | append_singleton parts part ih =>
      rw [sort_append_singleton]
      exact pairwise_insert part ih

/-- Parts of one number stay in order. -/
theorem filter_sort (parts : List (String × Nat)) (n : Nat) :
    (sort parts).filter (·.2 == n) = parts.filter (·.2 == n) := by
  induction parts using List.reverseRecOn with
  | nil => rfl
  | append_singleton parts part ih =>
      rw [sort_append_singleton, filter_insert part (pairwise_sort parts), List.filter_append, ih,
        List.filter_append]

/-! ### One kind -/

/-- The names of the parts of a kind with their numbers, as they are listed. -/
def numbered (kind : String) (names : List String) : List (String × Nat) :=
  names.filterMap fun name => (number? kind name).map fun n => (name, n)

section Kind

variable {kind : String} {names : List String}

theorem ordered_eq : ordered kind names = (sort (numbered kind names)).map (·.1) := by
  simp [ordered, listed, numbered, number?, List.map_filterMap, Function.comp_def]

theorem mem_numbered {part : String × Nat} :
    part ∈ numbered kind names ↔ part.1 ∈ names ∧ number? kind part.1 = some part.2 := by
  simp only [numbered, List.mem_filterMap, Option.map_eq_some_iff]
  constructor
  · rintro ⟨name, nameMem, n, n_eq, rfl⟩
    exact ⟨nameMem, n_eq⟩
  · rintro ⟨nameMem, n_eq⟩
    exact ⟨part.1, nameMem, part.2, n_eq, rfl⟩

theorem map_filter_numbered (names : List String) (n : Nat) :
    ((numbered kind names).filter (·.2 == n)).map (·.1) =
      names.filter (number? kind · == some n) := by
  induction names with
  | nil => rfl
  | cons name rest ih =>
      rw [numbered] at ih ⊢
      cases n_eq : number? kind name with
      | none => simp [n_eq, ih]
      | some m =>
          by_cases same : m = n
          · simp [n_eq, same, ih]
          · simp [n_eq, same, ih]

theorem number?_of_mem_sort {part : String × Nat} (partMem : part ∈ sort (numbered kind names)) :
    number? kind part.1 = some part.2 :=
  (mem_numbered.mp ((sort_perm _).mem_iff.mp partMem)).2

theorem mem_ordered {name : String} :
    name ∈ ordered kind names ↔ name ∈ names ∧ ∃ n, number? kind name = some n := by
  simp only [ordered_eq, List.mem_map, (sort_perm _).mem_iff, mem_numbered]
  constructor
  · rintro ⟨part, ⟨nameMem, n_eq⟩, rfl⟩
    exact ⟨nameMem, part.2, n_eq⟩
  · rintro ⟨nameMem, n, n_eq⟩
    exact ⟨(name, n), ⟨nameMem, n_eq⟩, rfl⟩

/-- The parts of a kind are in order of their numbers. -/
theorem pairwise_ordered (kind : String) (names : List String) :
    (ordered kind names).Pairwise fun first second =>
      ∃ m n, number? kind first = some m ∧ number? kind second = some n ∧ m ≤ n := by
  rw [ordered_eq, List.pairwise_map]
  refine (pairwise_sort _).imp_of_mem fun firstMem secondMem le => ?_
  exact ⟨_, _, number?_of_mem_sort firstMem, number?_of_mem_sort secondMem, le⟩

/-- The parts of a kind of one number are as they are listed. -/
theorem filter_ordered (n : Nat) :
    (ordered kind names).filter (number? kind · == some n) =
      names.filter (number? kind · == some n) := by
  have same : ∀ part ∈ sort (numbered kind names),
      (number? kind part.1 == some n) = (part.2 == n) := by
    intro part partMem
    rw [number?_of_mem_sort partMem, Option.some_beq_some]
  rw [ordered_eq, List.filter_map, Function.comp_def, List.filter_congr same, filter_sort,
    map_filter_numbered]

/-- The parts of a kind, each once, are in order of their numbers and then as they are listed. -/
theorem pairwise_addAllNew_ordered (kind : String) (names : List String) :
    (addAllNew [] (ordered kind names)).Pairwise fun first second =>
      ∃ m n, number? kind first = some m ∧ number? kind second = some n ∧
        (m < n ∨ m = n ∧ names.idxOf first < names.idxOf second) := by
  have byNumber := (pairwise_ordered kind names).sublist (addAllNew_sublist _)
  refine (byNumber.and (pairwise_idxOf_addAllNew _)).imp ?_
  rintro first second ⟨⟨m, n, m_eq, n_eq, le⟩, before⟩
  refine ⟨m, n, m_eq, n_eq, ?_⟩
  rcases Nat.lt_or_eq_of_le le with less | rfl
  · exact .inl less
  · have ofNumber := idxOf_filter_lt_iff (number? kind · == some m) (beq_iff_eq.mpr m_eq)
      (beq_iff_eq.mpr n_eq)
    rw [← ofNumber, filter_ordered, ofNumber] at before
    exact .inr ⟨rfl, before⟩

end Kind

/-! ### Reading order -/

/-- A text part is read before another one: its area comes first, or else its number is smaller,
or else it is listed first. -/
def ReadsBefore (archive : Archive) (first second : String) : Prop :=
  ∃ area number area' number', Ranked first area number ∧ Ranked second area' number' ∧
    (area < area' ∨ area = area' ∧
      (number < number' ∨ number = number' ∧
        archive.names.idxOf first < archive.names.idxOf second))

/-- What is read from an archive: its text parts in reading order, each once and with the content
of its last entry. -/
structure IsReading (archive : Archive) (parts : List (String × Bytes)) : Prop where
  mem_iff : ∀ name content, (name, content) ∈ parts ↔
    IsText name ∧ archive.EndsWith name content
  nodup : (parts.map (·.1)).Nodup
  inOrder : parts.Pairwise fun first second => ReadsBefore archive first.1 second.1

section

variable {archive : Archive} {first second : String}

theorem ReadsBefore.not_symm (before : ReadsBefore archive first second) :
    ¬ReadsBefore archive second first := by
  obtain ⟨area, number, area', number', ranked, ranked', order⟩ := before
  rintro ⟨_, _, _, _, again', again, order'⟩
  obtain ⟨rfl, rfl⟩ := ranked.unique again
  obtain ⟨rfl, rfl⟩ := ranked'.unique again'
  omega

theorem ReadsBefore.ne (before : ReadsBefore archive first second) : first ≠ second := by
  rintro rfl
  exact before.not_symm before

end

/-- The names of one area that an archive lists, in reading order. -/
structure IsArea (archive : Archive) (area : Nat) (names : List String) : Prop where
  mem_iff : ∀ name, name ∈ names ↔ name ∈ archive.names ∧ ∃ number, Ranked name area number
  inOrder : names.Pairwise (ReadsBefore archive)

section

variable {archive : Archive}

/-- The name of the body, if it is listed. -/
def bodies (archive : Archive) : List String :=
  if archive.names.contains body then [body] else []

theorem isArea_bodies (archive : Archive) : IsArea archive 0 (bodies archive) where
  mem_iff := by
    intro name
    have ranked_iff : (∃ number, Ranked name 0 number) ↔ name = body := by
      constructor
      · rintro ⟨_, ranked⟩
        cases ranked
        rfl
      · rintro rfl
        exact ⟨0, .body⟩
    rw [ranked_iff, bodies]
    split
    · next listed =>
        rw [List.mem_singleton]
        constructor
        · rintro rfl
          exact ⟨List.contains_iff_mem.mp listed, rfl⟩
        · exact And.right
    · next unlisted =>
        constructor
        · rintro ⟨⟩
        · rintro ⟨nameMem, rfl⟩
          exact absurd (List.contains_iff_mem.mpr nameMem) unlisted
  inOrder := by
    rw [bodies]
    split
    · exact List.pairwise_singleton _ _
    · exact .nil

/-- The parts of a kind make up an area when their numbers are those of the area. -/
theorem isArea_ordered {kind : String} {area : Nat}
    (ranked_iff : ∀ name ∈ archive.names, ∀ n,
      number? kind name = some n ↔ Ranked name area n) :
    IsArea archive area (addAllNew [] (ordered kind archive.names)) where
  mem_iff := by
    intro name
    simp only [mem_addAllNew, List.not_mem_nil, false_or, mem_ordered]
    exact and_congr_right fun nameMem => exists_congr fun n => ranked_iff name nameMem n
  inOrder := by
    refine (pairwise_addAllNew_ordered kind archive.names).imp_of_mem ?_
    simp only [mem_addAllNew, List.not_mem_nil, false_or, mem_ordered]
    rintro first second ⟨firstMem, _⟩ ⟨secondMem, _⟩ ⟨m, n, m_eq, n_eq, order⟩
    exact ⟨area, m, area, n, (ranked_iff first firstMem m).mp m_eq,
      (ranked_iff second secondMem n).mp n_eq, .inr ⟨rfl, order⟩⟩

theorem IsArea.disjoint {area area' : Nat} {names names' : List String}
    (isArea : IsArea archive area names) (isArea' : IsArea archive area' names')
    (ne : area ≠ area') : names.Disjoint names' := by
  intro name nameMem nameMem'
  obtain ⟨_, _, ranked⟩ := (isArea.mem_iff name).mp nameMem
  obtain ⟨_, _, ranked'⟩ := (isArea'.mem_iff name).mp nameMem'
  exact ne (ranked.unique ranked').1

theorem IsArea.readsBefore {area area' : Nat} {names names' : List String}
    (isArea : IsArea archive area names) (isArea' : IsArea archive area' names')
    (less : area < area') {first second : String} (firstMem : first ∈ names)
    (secondMem : second ∈ names') : ReadsBefore archive first second := by
  obtain ⟨_, _, ranked⟩ := (isArea.mem_iff first).mp firstMem
  obtain ⟨_, _, ranked'⟩ := (isArea'.mem_iff second).mp secondMem
  exact ⟨_, _, _, _, ranked, ranked', .inl less⟩

/-- The names of the text parts are those of the three areas, one area after the other. -/
theorem exists_areas (singleLine : ∀ name ∈ archive.names, '\n' ∉ name.toList) :
    ∃ bodies headers footers, namesOf archive = bodies ++ headers ++ footers ∧
      IsArea archive 0 bodies ∧ IsArea archive 1 headers ∧ IsArea archive 2 footers := by
  have isBodies := isArea_bodies archive
  have isHeaders : IsArea archive 1 (addAllNew [] (ordered "header" archive.names)) :=
    isArea_ordered fun name nameMem _ => number?_header_eq_some_iff (singleLine name nameMem)
  have isFooters : IsArea archive 2 (addAllNew [] (ordered "footer" archive.names)) :=
    isArea_ordered fun name nameMem _ => number?_footer_eq_some_iff (singleLine name nameMem)
  refine ⟨_, _, _, ?_, isBodies, isHeaders, isFooters⟩
  -- the areas have no name in common, so each of them is collected on its own
  have once : addAllNew [] (bodies archive) = bodies archive := by
    unfold bodies
    split
    · rfl
    · rfl
  have headersNew : (bodies archive).Disjoint (ordered "header" archive.names) :=
    fun name old again =>
      isBodies.disjoint isHeaders (by decide) old (mem_addAllNew.mpr (.inr again))
  have footersNew : (bodies archive ++ addAllNew [] (ordered "header" archive.names)).Disjoint
      (ordered "footer" archive.names) := by
    intro name old again
    have collected : name ∈ addAllNew [] (ordered "footer" archive.names) :=
      mem_addAllNew.mpr (.inr again)
    rcases List.mem_append.mp old with old | old
    · exact isBodies.disjoint isFooters (by decide) old collected
    · exact isHeaders.disjoint isFooters (by decide) old collected
  rw [namesOf, readingOrder, ← bodies, eraseDups_eq_addAllNew, addAllNew_append,
    addAllNew_append, once, addAllNew_of_disjoint headersNew, addAllNew_of_disjoint footersNew]

end

/-! ### Readings -/

section

variable {archive other : Archive} {parts others : List (String × Bytes)}

theorem IsReading.readsOnce (reading : IsReading archive parts) : parts.Nodup :=
  reading.nodup.of_map _

theorem IsReading.isListed (reading : IsReading archive parts) {part : String × Bytes}
    (partMem : part ∈ parts) : part.1 ∈ archive.names := by
  obtain ⟨_, before, after, entries_eq, _⟩ := (reading.mem_iff part.1 part.2).mp partMem
  rw [Archive.names, entries_eq]
  simp

/-- What is read from an archive is a reading of it. -/
theorem isReading_ofArchive (singleLine : ∀ name ∈ archive.names, '\n' ∉ name.toList) :
    IsReading archive (ofArchive archive) := by
  obtain ⟨bodies, headers, footers, names_eq, isBodies, isHeaders, isFooters⟩ :=
    exists_areas singleLine
  have inOrder : (namesOf archive).Pairwise (ReadsBefore archive) := by
    rw [names_eq, List.pairwise_append, List.pairwise_append]
    refine ⟨⟨isBodies.inOrder, isHeaders.inOrder, ?_⟩, isFooters.inOrder, ?_⟩
    · intro first firstMem second secondMem
      exact isBodies.readsBefore isHeaders (by decide) firstMem secondMem
    · intro first firstMem second secondMem
      rcases List.mem_append.mp firstMem with firstMem | firstMem
      · exact isBodies.readsBefore isFooters (by decide) firstMem secondMem
      · exact isHeaders.readsBefore isFooters (by decide) firstMem secondMem
  -- every text part is in one of the three areas
  have mem_names : ∀ name, name ∈ namesOf archive ↔
      name ∈ archive.names ∧ IsText name := by
    intro name
    rw [names_eq, List.mem_append, List.mem_append, isBodies.mem_iff, isHeaders.mem_iff,
      isFooters.mem_iff, ← and_or_left, ← and_or_left]
    refine and_congr_right fun _ => ?_
    constructor
    · rintro ((⟨number, ranked⟩ | ⟨number, ranked⟩) | ⟨number, ranked⟩)
      · exact ⟨0, number, ranked⟩
      · exact ⟨1, number, ranked⟩
      · exact ⟨2, number, ranked⟩
    · rintro ⟨area, number, ranked⟩
      cases ranked with
      | body => exact .inl (.inl ⟨0, .body⟩)
      | header decimal => exact .inl (.inr ⟨_, .header decimal⟩)
      | footer decimal => exact .inr ⟨_, .footer decimal⟩
  refine ⟨?_, ?_, ?_⟩
  · intro name content
    rw [← Archive.content?_eq_some_iff]
    simp only [ofArchive, List.mem_map, Prod.mk.injEq]
    constructor
    · rintro ⟨_, nameMem, rfl, rfl⟩
      obtain ⟨listed, ranked⟩ := (mem_names _).mp nameMem
      exact ⟨ranked, Archive.content?_of_mem_names listed⟩
    · rintro ⟨ranked, held⟩
      have listed := Archive.mem_names_of_content? held
      exact ⟨name, (mem_names name).mpr ⟨listed, ranked⟩, rfl,
        Archive.contentOf_of_content? held⟩
  · simp only [ofArchive, List.map_map, Function.comp_def, List.map_id']
    exact inOrder.imp fun before => before.ne
  · rw [ofArchive, List.pairwise_map]
    exact inOrder

example : namesOf { entries := [("word/header01.xml", []), ("word/footer.xml", []),
      ("word/header10.xml", []), ("word/header1.xml", []), ("word/styles.xml", []),
      ("word/header2.xml", []), ("word/header01.xml", []), (body, [])] } =
    [body, "word/header01.xml", "word/header1.xml", "word/header2.xml", "word/header10.xml",
      "word/footer.xml"] := by
  decide +kernel

/-- An archive has one reading. -/
theorem IsReading.eq (reading : IsReading archive parts) (again : IsReading archive others) :
    parts = others := by
  have perm : parts.Perm others := by
    rw [List.perm_ext_iff_of_nodup reading.readsOnce again.readsOnce]
    rintro ⟨name, content⟩
    rw [reading.mem_iff, again.mem_iff]
  refine perm.eq_of_pairwise ?_ reading.inOrder again.inOrder
  intro first second _ _ before after
  exact absurd after before.not_symm

/-- No two headers and no two footers of an archive have one number. -/
def NumbersDiffer (archive : Archive) : Prop :=
  ∀ first ∈ archive.names, ∀ second ∈ archive.names, ∀ area number,
    Ranked first area number → Ranked second area number → first = second

/-- Numbers are distinct when those that are found in the names are. -/
theorem numbersDiffer_of_number? (singleLine : ∀ name ∈ archive.names, '\n' ∉ name.toList)
    (differ : ∀ kind ∈ ["header", "footer"], ∀ first ∈ archive.names, ∀ second ∈ archive.names,
      number? kind first ≠ none → number? kind first = number? kind second → first = second) :
    NumbersDiffer archive := by
  intro first firstMem second secondMem area number ranked ranked'
  have singleLine₁ := singleLine first firstMem
  have singleLine₂ := singleLine second secondMem
  cases ranked with
  | body =>
      cases ranked'
      rfl
  | header decimal =>
      have found := (number?_header_eq_some_iff singleLine₁).mpr (.header decimal)
      have found' := (number?_header_eq_some_iff singleLine₂).mpr ranked'
      exact differ "header" (by decide) _ firstMem _ secondMem (by simp [found])
        (found.trans found'.symm)
  | footer decimal =>
      have found := (number?_footer_eq_some_iff singleLine₁).mpr (.footer decimal)
      have found' := (number?_footer_eq_some_iff singleLine₂).mpr ranked'
      exact differ "footer" (by decide) _ firstMem _ secondMem (by simp [found])
        (found.trans found'.symm)

theorem IsReading.of_perm (perm : other.entries.Perm archive.entries)
    (nodup : archive.names.Nodup) (differ : NumbersDiffer archive)
    (reading : IsReading archive parts) : IsReading other parts where
  mem_iff := by
    intro name content
    have nodup' : other.names.Nodup := (perm.map _).nodup_iff.mpr nodup
    rw [reading.mem_iff, Archive.endsWith_iff_mem nodup, Archive.endsWith_iff_mem nodup',
      perm.mem_iff]
  nodup := reading.nodup
  inOrder := by
    refine reading.inOrder.imp_of_mem ?_
    rintro first second firstMem secondMem before
    obtain ⟨area, number, area', number', ranked, ranked', order⟩ := id before
    refine ⟨area, number, area', number', ranked, ranked', ?_⟩
    rcases order with less | ⟨rfl, less | ⟨rfl, _⟩⟩
    · exact .inl less
    · exact .inr ⟨rfl, .inl less⟩
    · have same := differ first.1 (reading.isListed firstMem) second.1 (reading.isListed secondMem)
        area number ranked ranked'
      exact absurd same before.ne

/-- Where names and numbers are distinct, the same is read whatever the order of the entries. -/
theorem ofArchive_of_perm (plain : archive.IsPlain) (nodup : archive.names.Nodup)
    (differ : NumbersDiffer archive) (perm : other.entries.Perm archive.entries) :
    ofArchive other = ofArchive archive := by
  have reading := isReading_ofArchive plain.singleLine
  have reading' := isReading_ofArchive (plain.of_perm perm).singleLine
  exact reading'.eq (reading.of_perm perm nodup differ)

/-- An entry that is added under a new name leaves what else is read as it was. -/
theorem IsReading.of_isExtended {name : String} {content : Bytes}
    (isExtended : archive.IsExtended other name content) (reading : IsReading other parts) :
    IsReading archive (parts.filter (·.1 != name)) := by
  obtain ⟨new, before, after, entries_eq, added⟩ := isExtended
  have kept : archive.names.filter (· != name) = archive.names := by
    rw [List.filter_eq_self]
    intro listed listedMem
    rw [bne_iff_ne]
    rintro rfl
    exact new listedMem
  have names_eq : other.names.filter (· != name) = archive.names := by
    rw [← kept, Archive.names, Archive.names, entries_eq, added]
    simp
  have content?_eq : ∀ old, old ≠ name → other.content? old = archive.content? old := by
    intro old oldNe
    simp [Archive.content?, entries_eq, added, List.lookup_append, List.lookup_cons,
      beq_eq_false_iff_ne.mpr oldNe]
  refine ⟨?_, ?_, ?_⟩
  · intro old oldContent
    rw [List.mem_filter, reading.mem_iff, bne_iff_ne, ← Archive.content?_eq_some_iff,
      ← Archive.content?_eq_some_iff]
    constructor
    · rintro ⟨⟨ranked, held⟩, oldNe⟩
      exact ⟨ranked, content?_eq old oldNe ▸ held⟩
    · rintro ⟨ranked, held⟩
      have oldNe : old ≠ name := by
        rintro rfl
        exact new (Archive.mem_names_of_content? held)
      exact ⟨⟨ranked, (content?_eq old oldNe).trans held⟩, oldNe⟩
  · exact reading.nodup.sublist (List.filter_sublist.map _)
  · refine (reading.inOrder.filter _).imp_of_mem ?_
    intro first second firstMem secondMem order
    -- leaving out the new name does not change which of two others comes first
    have inserted := idxOf_filter_lt_iff (· != name) (List.mem_filter.mp firstMem).2
      (List.mem_filter.mp secondMem).2 other.names
    rw [names_eq] at inserted
    rwa [ReadsBefore, inserted]

end

/-! ### Long numbers -/

/-- A number is too long when that of some listed part is. -/
theorem tooLong?_ne_none_iff {kind : String} {names : List String} :
    tooLong? kind names ≠ none ↔
      ∃ name ∈ names, ∃ digits, digits? kind name = some digits ∧ digitLimit < digits.length := by
  rw [tooLong?, Option.ne_none_iff_isSome, List.find?_isSome]
  simp only [listed, List.mem_map, List.mem_filterMap, Option.map_eq_some_iff, decide_eq_true_eq]
  constructor
  · rintro ⟨_, ⟨_, ⟨name, nameMem, digits, digits_eq, rfl⟩, rfl⟩, long⟩
    exact ⟨name, nameMem, digits, digits_eq, long⟩
  · rintro ⟨name, nameMem, digits, digits_eq, long⟩
    exact ⟨_, ⟨_, ⟨name, nameMem, digits, digits_eq, rfl⟩, rfl⟩, long⟩

/-- A package that is an archive gives its text parts, unless a number is too long. -/
theorem ofPackage_of_archive? {package : Package} {archive : Archive}
    (opened : package.archive? = some archive) :
    ofPackage package =
      match tooLongAmong? archive.names with
      | some digits => .error (.numberTooLong digits)
      | none => .ok (ofArchive archive) := by
  cases long : tooLongAmong? archive.names with
  | some digits => simp only [ofPackage, opened, long]
  | none => simp only [ofPackage, opened, long]

theorem ofSource_of_archive? {source : Source} {archive : Archive}
    (opened : source.archive? = some archive) :
    ofSource source =
      match tooLongAmong? archive.names with
      | some digits => .error (.numberTooLong digits)
      | none => .ok (ofArchive archive) := by
  cases source with
  | memory package => exact ofPackage_of_archive? opened
  | file path package =>
      cases package with
      | none => cases opened
      | some package => exact ofPackage_of_archive? opened

/-- Names are plain when each is one line and no number is too long. -/
theorem isPlain_iff {archive : Archive} :
    archive.IsPlain ↔
      (∀ name ∈ archive.names, '\n' ∉ name.toList) ∧ tooLongAmong? archive.names = none := by
  rw [tooLongAmong?, Option.or_eq_none_iff]
  constructor
  · intro plain
    have short : ∀ kind ∈ ["header", "footer"], tooLong? kind archive.names = none := by
      intro kind kindMem
      by_contra long
      obtain ⟨name, nameMem, digits, digits_eq, long⟩ := tooLong?_ne_none_iff.mp long
      obtain ⟨rfl, decimal⟩ := (digits?_eq_some_iff (plain.singleLine name nameMem)).mp digits_eq
      exact absurd (plain.shortNumbers kind kindMem digits decimal nameMem) (Nat.not_le.mpr long)
    exact ⟨plain.singleLine, short "header" (by decide), short "footer" (by decide)⟩
  · rintro ⟨singleLine, headers, footers⟩
    refine ⟨singleLine, fun kind kindMem digits decimal listed => ?_⟩
    have short : tooLong? kind archive.names = none := by
      rcases List.mem_pair.mp kindMem with rfl | rfl
      · exact headers
      · exact footers
    by_contra long
    have found := (digits?_eq_some_iff (singleLine _ listed)).mpr ⟨rfl, decimal⟩
    exact tooLong?_ne_none_iff.mpr ⟨_, listed, digits, found, Nat.not_le.mp long⟩ short

instance (archive : Archive) : Decidable archive.IsPlain :=
  decidable_of_iff _ isPlain_iff.symm

/-- The text parts of a source with plain names are read. -/
theorem ofSource_of_isPlain {source : Source} {archive : Archive}
    (opened : source.archive? = some archive) (plain : archive.IsPlain) :
    ofSource source = .ok (ofArchive archive) := by
  rw [ofSource_of_archive? opened, (isPlain_iff.mp plain).2]

end Part

end Stencil
