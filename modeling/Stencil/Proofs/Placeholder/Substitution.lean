import Stencil.Proofs.Distinct
import Stencil.Proofs.Placeholder.TokenMatch

/-!
# Substitution in well-formed templates

A template is well-formed when it is written of pieces: plain text without opening braces,
and tokens between single or double braces with a name inside.  A token of a key is
then found exactly at the pieces with that name, and replacing it replaces the piece.
What is put in holds no opening brace and is plain text for the keys to come, so
replacing one key after the other replaces all of them at once.
-/

namespace Stencil

open Text

theorem Text.ne_nil_of_trim_ne_nil {cs : List Char} (filled : trim cs ≠ []) : cs ≠ [] := by
  rintro rfl
  exact filled rfl

namespace Segment

/-- The name in a token. -/
def name? : Segment → Option (List Char)
  | literal _ => none
  | token inside => some (trim inside)
  | doubled inside => some (trim inside)

/-- What a piece of a well-formed template is: plain text without opening braces, or a
token with something besides blanks and no further braces inside. -/
def IsProper : Segment → Prop
  | literal text => Token.openBrace ∉ text
  | token inside => Token.BraceFree inside ∧ trim inside ≠ []
  | doubled inside => Token.BraceFree inside ∧ trim inside ≠ []

instance (segment : Segment) : Decidable segment.IsProper :=
  match segment with
  | literal text => inferInstanceAs (Decidable (Token.openBrace ∉ text))
  | token inside => inferInstanceAs (Decidable (Token.BraceFree inside ∧ trim inside ≠ []))
  | doubled inside => inferInstanceAs (Decidable (Token.BraceFree inside ∧ trim inside ≠ []))

/-- What a piece is that can be told from those beside it: plain text without opening braces,
or a token without further braces inside, be it blank. -/
def IsReadable : Segment → Prop
  | literal text => Token.openBrace ∉ text
  | token inside => Token.BraceFree inside
  | doubled inside => Token.BraceFree inside

instance (segment : Segment) : Decidable segment.IsReadable :=
  match segment with
  | literal text => inferInstanceAs (Decidable (Token.openBrace ∉ text))
  | token inside => inferInstanceAs (Decidable (Token.BraceFree inside))
  | doubled inside => inferInstanceAs (Decidable (Token.BraceFree inside))

theorem IsProper.isReadable {segment : Segment} (proper : segment.IsProper) :
    segment.IsReadable := by
  cases segment with
  | literal text => exact proper
  | token inside => exact proper.1
  | doubled inside => exact proper.1

/-- What stands between the first opening brace of a piece and its first closing one. -/
def body? : Segment → Option (List Char)
  | literal _ => none
  | token inside => some inside
  | doubled inside => some (Token.openBrace :: inside)

/-- A piece with a text in the place of the token of a key. -/
def replaced (key value : List Char) (segment : Segment) : Segment :=
  if segment.name? = some key then .literal value else segment

/-- A piece with a text in the place of a token that names a key. -/
def substituted (values : Token.Values) (segment : Segment) : Segment :=
  match segment.name?.bind fun name => values.lookup (String.ofList name) with
  | some value => .literal value.toList
  | none => segment

theorem text_token (inside : List Char) :
    (token inside).text = Token.openBrace :: (inside ++ [Token.closeBrace]) :=
  rfl

theorem text_doubled (inside : List Char) :
    (doubled inside).text =
      Token.openBrace :: Token.openBrace :: (inside ++ [Token.closeBrace, Token.closeBrace]) :=
  rfl

end Segment

namespace Token

/-- A token of a key stands at the piece that names it. -/
theorem tokenLength?_of_named {key : List Char} (isName : IsName key) {segment : Segment}
    (proper : segment.IsProper) (named : segment.name? = some key) (rest : List Char) :
    segment.text ≠ [] ∧ tokenLength? key (segment.text ++ rest) = some segment.text.length := by
  cases segment with
  | literal text => cases named
  | token inside =>
      rcases proper with ⟨braceFree, filled⟩
      have notNil := ne_nil_of_trim_ne_nil filled
      have named : trim inside = key := Option.some.inj named
      have found := tokenLength?_single isName braceFree notNil rest
      rw [if_pos named] at found
      constructor
      · simp [Segment.text_token]
      · simpa [Segment.text_token] using found
  | doubled inside =>
      rcases proper with ⟨braceFree, _⟩
      have named : trim inside = key := Option.some.inj named
      have found := tokenLength?_doubled isName braceFree rest
      rw [if_pos named] at found
      constructor
      · simp [Segment.text_doubled]
      · simpa [Segment.text_doubled] using found

/-- No token of a key begins within a text that has another one behind it. -/
def NoneBegins (key cs rest : List Char) : Prop :=
  ∀ suffix, suffix <:+ cs → suffix ≠ [] → tokenLength? key (suffix ++ rest) = none

theorem NoneBegins.cons {key cs rest : List Char} {c : Char}
    (here : tokenLength? key (c :: cs ++ rest) = none) (noneBegins : NoneBegins key cs rest) :
    NoneBegins key (c :: cs) rest := by
  intro suffix isSuffix filled
  rcases List.suffix_cons_iff.mp isSuffix with rfl | later
  · exact here
  · exact noneBegins suffix later filled

theorem NoneBegins.of_cons {key cs rest : List Char} {c : Char}
    (noneBegins : NoneBegins key (c :: cs) rest) :
    tokenLength? key (c :: (cs ++ rest)) = none ∧ NoneBegins key cs rest := by
  constructor
  · exact noneBegins (c :: cs) List.suffix_rfl (List.cons_ne_nil c cs)
  · exact fun suffix isSuffix => noneBegins suffix (isSuffix.trans (List.suffix_cons c cs))

theorem noneBegins_of_openBrace_notMem {key cs : List Char} (plain : openBrace ∉ cs)
    (rest : List Char) : NoneBegins key cs rest := by
  intro suffix isSuffix filled
  rcases List.exists_cons_of_ne_nil filled with ⟨c, others, rfl⟩
  apply tokenLength?_of_ne
  rintro rfl
  exact plain (isSuffix.subset List.mem_cons_self)

/-- No token of a key begins within a piece that does not name it. -/
theorem noneBegins_of_not_named {key : List Char} (isName : IsName key) {segment : Segment}
    (proper : segment.IsProper) (other : segment.name? ≠ some key) (rest : List Char) :
    NoneBegins key segment.text rest := by
  cases segment with
  | literal text => exact noneBegins_of_openBrace_notMem proper rest
  | token inside =>
      rcases proper with ⟨braceFree, filled⟩
      have notNil := ne_nil_of_trim_ne_nil filled
      have other : trim inside ≠ key := fun named => other (congrArg some named)
      have here := tokenLength?_single isName braceFree notNil rest
      rw [if_neg other] at here
      refine NoneBegins.cons (by simpa using here) (noneBegins_of_openBrace_notMem ?_ rest)
      simpa [openBrace, closeBrace] using braceFree.openBrace_notMem
  | doubled inside =>
      rcases proper with ⟨braceFree, filled⟩
      have notNil := ne_nil_of_trim_ne_nil filled
      have other : trim inside ≠ key := fun named => other (congrArg some named)
      have outer := tokenLength?_doubled isName braceFree rest
      have inner := tokenLength?_single isName braceFree notNil (closeBrace :: rest)
      rw [if_neg other] at outer inner
      refine NoneBegins.cons (by simpa using outer) (NoneBegins.cons (by simpa using inner)
        (noneBegins_of_openBrace_notMem ?_ rest))
      simpa [openBrace, closeBrace] using braceFree.openBrace_notMem

variable {key value : List Char}

/-- What is pending is passed over. -/
theorem replaceKeyFrom_length (passed rest : List Char) :
    replaceKeyFrom key value passed.length (passed ++ rest) = replaceKey key value rest := by
  induction passed with
  | nil => rfl
  | cons c passed ih => exact ih

theorem replaceKey_of_found {cs rest : List Char} (filled : cs ≠ [])
    (found : tokenLength? key (cs ++ rest) = some cs.length) :
    replaceKey key value (cs ++ rest) = value ++ replaceKey key value rest := by
  rcases List.exists_cons_of_ne_nil filled with ⟨c, others, rfl⟩
  rw [List.cons_append] at found ⊢
  simp only [replaceKey, replaceKeyFrom, found, List.length_cons, Nat.add_sub_cancel]
  rw [replaceKeyFrom_length, replaceKey]

theorem replaceKey_of_noneBegins {cs rest : List Char} (noneBegins : NoneBegins key cs rest) :
    replaceKey key value (cs ++ rest) = cs ++ replaceKey key value rest := by
  induction cs with
  | nil => rfl
  | cons c cs ih =>
      rcases noneBegins.of_cons with ⟨here, later⟩
      rw [List.cons_append]
      have step : replaceKey key value (c :: (cs ++ rest)) =
          c :: replaceKey key value (cs ++ rest) := by
        simp only [replaceKey, replaceKeyFrom, here]
      rw [step, ih later, List.cons_append]

theorem replaceKey_of_plain {cs : List Char} (plain : openBrace ∉ cs) :
    replaceKey key value cs = cs := by
  have noneBegins : NoneBegins key cs [] := noneBegins_of_openBrace_notMem plain []
  simpa [replaceKey, replaceKeyFrom] using replaceKey_of_noneBegins noneBegins

/-- Where no brace is, nothing is replaced. -/
theorem replaceAllKeys_of_plain {cs : List Char} (plain : openBrace ∉ cs) (values : Values) :
    replaceAllKeys values cs = cs := by
  induction values with
  | nil => rfl
  | cons entry rest ih =>
      have step : replaceAllKeys (entry :: rest) cs =
          replaceAllKeys rest (replaceKey entry.1.toList entry.2.toList cs) := rfl
      rw [step, replaceKey_of_plain plain, ih]

theorem holdsKey_of_noneBegins {cs rest : List Char} (noneBegins : NoneBegins key cs rest) :
    holdsKey key (cs ++ rest) = holdsKey key rest := by
  induction cs with
  | nil => rfl
  | cons c cs ih =>
      rcases noneBegins.of_cons with ⟨here, later⟩
      rw [List.cons_append]
      rw [holdsKey, here, ih later]
      rfl

theorem holdsKey_of_plain {cs : List Char} (plain : openBrace ∉ cs) : holdsKey key cs = false := by
  have noneBegins : NoneBegins key cs [] := noneBegins_of_openBrace_notMem plain []
  simpa [holdsKey] using holdsKey_of_noneBegins noneBegins

theorem replaceKey_segment (isName : IsName key) {segment : Segment} (proper : segment.IsProper)
    (rest : List Char) :
    replaceKey key value (segment.text ++ rest) =
      (segment.replaced key value).text ++ replaceKey key value rest := by
  by_cases named : segment.name? = some key
  · obtain ⟨filled, found⟩ := tokenLength?_of_named isName proper named rest
    rw [replaceKey_of_found filled found, Segment.replaced, if_pos named]
    rfl
  · rw [replaceKey_of_noneBegins (noneBegins_of_not_named isName proper named rest),
      Segment.replaced, if_neg named]

theorem holdsKey_segment (isName : IsName key) {segment : Segment} (proper : segment.IsProper)
    (rest : List Char) :
    holdsKey key (segment.text ++ rest) = (segment.name? == some key || holdsKey key rest) := by
  by_cases named : segment.name? = some key
  · obtain ⟨filled, found⟩ := tokenLength?_of_named isName proper named rest
    rcases List.exists_cons_of_ne_nil filled with ⟨c, others, text_eq⟩
    rw [text_eq, List.cons_append] at found ⊢
    rw [holdsKey, found, named]
    simp
  · rw [holdsKey_of_noneBegins (noneBegins_of_not_named isName proper named rest)]
    simp [named]

end Token

namespace Segment

theorem textOf_cons (segment : Segment) (rest : List Segment) :
    textOf (segment :: rest) = segment.text ++ textOf rest :=
  rfl

theorem IsProper.replaced {segment : Segment} (proper : segment.IsProper) {key value : List Char}
    (plain : Token.openBrace ∉ value) : (segment.replaced key value).IsProper := by
  unfold Segment.replaced
  split
  · exact plain
  · exact proper

end Segment

namespace Token

open Segment

theorem forall_isProper_replaced {segments : List Segment} {value : List Char}
    (proper : ∀ segment ∈ segments, segment.IsProper) (key : List Char)
    (plain : openBrace ∉ value) :
    ∀ segment ∈ segments.map (Segment.replaced key value), segment.IsProper := by
  intro _ segmentMem
  rcases List.mem_map.mp segmentMem with ⟨segment, originMem, rfl⟩
  exact (proper segment originMem).replaced plain

/-- Replacing the tokens of a key replaces the pieces that name it. -/
theorem replaceKey_textOf {key value : List Char} (isName : IsName key) {segments : List Segment}
    (proper : ∀ segment ∈ segments, segment.IsProper) :
    replaceKey key value (textOf segments) =
      textOf (segments.map (Segment.replaced key value)) := by
  induction segments with
  | nil => rfl
  | cons segment rest ih =>
      rcases List.forall_mem_cons.mp proper with ⟨segmentProper, restProper⟩
      rw [textOf_cons, replaceKey_segment isName segmentProper, ih restProper, List.map_cons,
        textOf_cons]

/-- Tells whether some piece names a key. -/
def isNamedIn (segments : List Segment) (key : List Char) : Bool :=
  segments.any fun segment => segment.name? == some key

/-- A text has a token of a key when some piece names the key. -/
theorem holdsKey_textOf {key : List Char} (isName : IsName key) {segments : List Segment}
    (proper : ∀ segment ∈ segments, segment.IsProper) :
    holdsKey key (textOf segments) = isNamedIn segments key := by
  induction segments with
  | nil => rfl
  | cons segment rest ih =>
      rcases List.forall_mem_cons.mp proper with ⟨segmentProper, restProper⟩
      rw [textOf_cons, holdsKey_segment isName segmentProper, ih restProper, isNamedIn, isNamedIn,
        List.any_cons]

/-- Values to put into a template: names as keys, each of them once, and texts without
opening braces. -/
structure Values.IsProper (values : Values) : Prop where
  names : ∀ entry ∈ values, IsName entry.1.toList
  plain : ∀ entry ∈ values, openBrace ∉ entry.2.toList
  nodup : (values.map (·.1)).Nodup

theorem Values.IsProper.of_cons {key value : String} {rest : Values}
    (proper : Values.IsProper ((key, value) :: rest)) :
    IsName key.toList ∧ openBrace ∉ value.toList ∧ key ∉ rest.map (·.1) ∧
      Values.IsProper rest := by
  rcases List.forall_mem_cons.mp proper.names with ⟨keyName, restNames⟩
  rcases List.forall_mem_cons.mp proper.plain with ⟨valuePlain, restPlain⟩
  rcases List.nodup_cons.mp proper.nodup with ⟨keyNotMem, restNodup⟩
  exact ⟨keyName, valuePlain, keyNotMem, restNames, restPlain, restNodup⟩

end Token

namespace Segment

open Token

/-- A piece that names nothing is left alone. -/
theorem substituted_of_name?_eq_none {segment : Segment} (unnamed : segment.name? = none)
    (values : Values) : segment.substituted values = segment := by
  simp [substituted, unnamed]

/-- Replacing one key and then substituting the others substitutes all of them. -/
theorem substituted_replaced (key value : String) (rest : Values) (segment : Segment) :
    (segment.replaced key.toList value.toList).substituted rest =
      segment.substituted ((key, value) :: rest) := by
  cases name_eq : segment.name? with
  | none =>
      have kept : segment.replaced key.toList value.toList = segment := by
        simp [replaced, name_eq]
      rw [kept, substituted_of_name?_eq_none name_eq, substituted_of_name?_eq_none name_eq]
  | some name =>
      by_cases named : name = key.toList
      · subst named
        have replaced_eq : segment.replaced key.toList value.toList = .literal value.toList :=
          if_pos name_eq
        rw [replaced_eq, substituted_of_name?_eq_none rfl]
        simp [substituted, name_eq]
      · have other : (String.ofList name == key) = false := by
          rw [beq_eq_false_iff_ne]
          rintro rfl
          exact named (String.toList_ofList).symm
        simp [replaced, substituted, name_eq, named, List.lookup_cons, other]

end Segment

namespace Token

open Segment

/-- Replacing all keys one after the other substitutes them at once. -/
theorem replaceAllKeys_textOf {values : Values} (valuesProper : Values.IsProper values)
    {segments : List Segment} (proper : ∀ segment ∈ segments, segment.IsProper) :
    replaceAllKeys values (textOf segments) =
      textOf (segments.map (Segment.substituted values)) := by
  induction values generalizing segments with
  | nil =>
      have kept : segments.map (Segment.substituted []) = segments.map id := by
        apply List.map_congr_left
        intro segment _
        cases segment <;> rfl
      rw [kept, List.map_id]
      rfl
  | cons entry rest ih =>
      rcases entry with ⟨key, value⟩
      rcases valuesProper.of_cons with ⟨isName, plain, _, restProper⟩
      change replaceAllKeys rest (replaceKey key.toList value.toList (textOf segments)) = _
      rw [replaceKey_textOf isName proper,
        ih restProper (forall_isProper_replaced proper key.toList plain), List.map_map]
      congr 1
      apply List.map_congr_left
      intro segment _
      exact substituted_replaced key value rest segment

/-- What is named before a replacement and what is named behind it differ in its key. -/
theorem name?_replaced_eq_some_iff {key value name : List Char} (other : name ≠ key)
    (segment : Segment) :
    (segment.replaced key value).name? = some name ↔ segment.name? = some name := by
  unfold Segment.replaced
  split
  · next named =>
      have others : segment.name? ≠ some name := by
        rw [named]
        exact fun eq => other (Option.some.inj eq).symm
      exact iff_of_false (by simp [name?]) others
  · rfl

theorem isNamedIn_replaced {key value other : List Char} (differs : other ≠ key)
    (segments : List Segment) :
    isNamedIn (segments.map (Segment.replaced key value)) other = isNamedIn segments other := by
  rw [Bool.eq_iff_iff]
  simp [isNamedIn, name?_replaced_eq_some_iff differs]

/-- The keys found are those that some piece names. -/
theorem keysFound_textOf {values : Values} (valuesProper : Values.IsProper values)
    {segments : List Segment} (proper : ∀ segment ∈ segments, segment.IsProper) :
    keysFound values (textOf segments) =
      (values.map (·.1)).filter fun key => isNamedIn segments key.toList := by
  induction values generalizing segments with
  | nil => rfl
  | cons entry rest ih =>
      rcases entry with ⟨key, value⟩
      rcases valuesProper.of_cons with ⟨isName, plain, keyNotMem, restProper⟩
      have found := ih restProper (forall_isProper_replaced proper key.toList plain)
      have found_eq : keysFound rest (replaceKey key.toList value.toList (textOf segments)) =
          (rest.map (·.1)).filter fun key => isNamedIn segments key.toList := by
        rw [replaceKey_textOf isName proper, found]
        apply List.filter_congr
        intro other otherMem
        apply isNamedIn_replaced
        intro same
        obtain rfl := String.toList_injective same
        exact keyNotMem otherMem
      rw [keysFound, found_eq, holdsKey_textOf isName proper]
      by_cases named : isNamedIn segments key.toList = true
      · simp [named]
      · simp [named]

end Token

namespace Segment

open Token

theorem IsProper.substituted {segment : Segment} (proper : segment.IsProper) {values : Values}
    (valuesProper : Values.IsProper values) : (segment.substituted values).IsProper := by
  unfold Segment.substituted
  split
  · next value found =>
      rcases Option.bind_eq_some_iff.mp found with ⟨name, _, value_eq⟩
      rcases List.lookup_eq_some_iff.mp value_eq with ⟨before, after, values_eq, _⟩
      exact valuesProper.plain (String.ofList name, value) (by simp [values_eq])
  · exact proper

/-- There is nothing to put in for a name that is left after a substitution. -/
theorem lookup_of_name?_substituted {segment : Segment} {values : Values} {name : List Char}
    (left : (segment.substituted values).name? = some name) :
    values.lookup (String.ofList name) = none := by
  unfold substituted at left
  split at left
  · cases left
  · next unfound => rwa [left, Option.bind_some] at unfound

/-- A second substitution changes nothing. -/
theorem substituted_substituted (segment : Segment) (values : Values) :
    (segment.substituted values).substituted values = segment.substituted values := by
  cases left : (segment.substituted values).name? with
  | none => exact substituted_of_name?_eq_none left values
  | some name =>
      rw [substituted, left, Option.bind_some, lookup_of_name?_substituted left]

end Segment

namespace Token

/-- After a substitution no key is found any more. -/
theorem isNamedIn_substituted {values : Values} {key : String} (keyMem : key ∈ values.map (·.1))
    (segments : List Segment) :
    isNamedIn (segments.map (Segment.substituted values)) key.toList = false := by
  rw [isNamedIn, List.any_eq_false]
  intro _ segmentMem
  rcases List.mem_map.mp segmentMem with ⟨segment, _, rfl⟩
  intro named
  have unfound := Segment.lookup_of_name?_substituted (beq_iff_eq.mp named)
  rw [String.ofList_toList, List.lookup_eq_none_iff] at unfound
  rcases List.mem_map.mp keyMem with ⟨entry, entryMem, rfl⟩
  simpa using unfound entry entryMem

theorem Values.IsProper.perm {values values' : Values} (proper : Values.IsProper values)
    (perm : values'.Perm values) : Values.IsProper values' where
  names := fun entry entryMem => proper.names entry (perm.mem_iff.mp entryMem)
  plain := fun entry entryMem => proper.plain entry (perm.mem_iff.mp entryMem)
  nodup := (perm.map _).nodup_iff.mpr proper.nodup

end Token

namespace Segment

open Token

/-- What is substituted does not depend on the order of the values. -/
theorem substituted_eq_of_perm {values values' : Values} (proper : Values.IsProper values)
    (perm : values'.Perm values) (segment : Segment) :
    segment.substituted values' = segment.substituted values := by
  have lookup_eq (key : String) : values'.lookup key = values.lookup key := by
    apply Option.ext
    intro value
    rw [lookup_eq_some_iff_mem (proper.perm perm).nodup, lookup_eq_some_iff_mem proper.nodup]
    exact perm.mem_iff
  simp only [substituted, lookup_eq]

/-- In a text without opening braces no piece is a token. -/
theorem name?_eq_none_of_plain {segments : List Segment} (plain : openBrace ∉ textOf segments) :
    ∀ segment ∈ segments, segment.name? = none := by
  intro segment segmentMem
  have textPlain : openBrace ∉ segment.text := fun braceMem =>
    plain (List.mem_flatMap.mpr ⟨segment, segmentMem, braceMem⟩)
  cases segment with
  | literal text => rfl
  | token inside => exact absurd List.mem_cons_self textPlain
  | doubled inside => exact absurd List.mem_cons_self textPlain

/-- What a substitution writes comes from the template or from the values. -/
theorem mem_textOf_substituted {segments : List Segment} {values : Values} {c : Char}
    (cMem : c ∈ textOf (segments.map (Segment.substituted values))) :
    c ∈ textOf segments ∨ ∃ entry ∈ values, c ∈ entry.2.toList := by
  rcases List.mem_flatMap.mp cMem with ⟨_, segmentMem, cMem⟩
  rcases List.mem_map.mp segmentMem with ⟨segment, originMem, rfl⟩
  unfold Segment.substituted at cMem
  split at cMem
  · next value found =>
      rcases Option.bind_eq_some_iff.mp found with ⟨name, _, value_eq⟩
      rcases List.lookup_eq_some_iff.mp value_eq with ⟨before, after, values_eq, _⟩
      exact .inr ⟨(String.ofList name, value), by simp [values_eq], cMem⟩
  · exact .inl (List.mem_flatMap.mpr ⟨segment, originMem, cMem⟩)

end Segment

end Stencil
