import Stencil.Proofs.Placeholder.OnePass
import Stencil.Proofs.Word.FilledDocument
import Stencil.Proofs.Word.Unmatched

/-!
# Filling and the order of the values

Values that are inert towards the keys of each other are put in as in one pass, in which no value
is read and the order of the keys does not matter.  So neither the filled document nor the set of
reported keys depends on the order.  A value that is not inert towards a key is read as part of a
token of it in some document, if its key comes first.
-/

namespace Stencil.Token

open Stencil.Text

/-- What a replacement writes comes from the text or from the value. -/
theorem mem_replaceKeyFrom {key value cs : List Char} {pending : Nat} {c : Char}
    (cMem : c ∈ replaceKeyFrom key value pending cs) : c ∈ cs ∨ c ∈ value := by
  induction cs generalizing pending with
  | nil => cases pending <;> cases cMem
  | cons d rest ih =>
      cases pending with
      | succ pending => exact (ih cMem).imp_left (List.mem_cons_of_mem d)
      | zero =>
          rw [replaceKeyFrom] at cMem
          split at cMem
          · rcases List.mem_append.mp cMem with inValue | later
            · exact .inr inValue
            · exact (ih later).imp_left (List.mem_cons_of_mem d)
          · rcases List.mem_cons.mp cMem with rfl | later
            · exact .inl List.mem_cons_self
            · exact (ih later).imp_left (List.mem_cons_of_mem d)

theorem mem_replaceAllKeys {values : Values} {cs : List Char} {c : Char}
    (cMem : c ∈ replaceAllKeys values cs) : c ∈ cs ∨ ∃ entry ∈ values, c ∈ entry.2.toList := by
  induction values generalizing cs with
  | nil => exact .inl cMem
  | cons entry rest ih =>
      rcases ih cMem with replaced | ⟨other, otherMem, inValue⟩
      · exact (mem_replaceKeyFrom replaced).imp_right fun inValue =>
          ⟨entry, List.mem_cons_self, inValue⟩
      · exact .inr ⟨other, List.mem_cons_of_mem entry otherMem, inValue⟩

/-- A key that does not come again is looked for in the text as it is. -/
theorem isFoundIn_cons_iff {key value : String} {rest : Values} (new : key ∉ rest.map (·.1))
    {text : List Char} :
    IsFoundIn ((key, value) :: rest) key text ↔ holdsKey key.toList text = true := by
  constructor
  · rintro ⟨before, value', behind, values_eq, held⟩
    cases before with
    | nil => exact held
    | cons entry before =>
        obtain ⟨_, rest_eq⟩ := List.cons.inj values_eq
        exact absurd (by simp [rest_eq]) new
  · exact fun held => ⟨[], value, rest, rfl, held⟩

/-- A character that a document can hold, a blank in the place of one that it cannot. -/
def heldChar (c : Char) : Char :=
  if Xml.isAllowed c then c else ' '

theorem isAllowed_heldChar (c : Char) : Xml.isAllowed (heldChar c) = true := by
  unfold heldChar
  split
  · assumption
  · rfl

theorem heldChar_eq_iff {c d : Char} (held : Xml.isAllowed d = true) (notSpace : d ≠ ' ') :
    heldChar c = d ↔ c = d := by
  unfold heldChar
  split
  · rfl
  · next unheld =>
      refine iff_of_false notSpace.symm ?_
      rintro rfl
      exact unheld held

theorem map_heldChar_eq_self {cs : List Char} (held : ∀ c ∈ cs, Xml.isAllowed c = true) :
    cs.map heldChar = cs := by
  calc
    cs.map heldChar = cs.map id := List.map_congr_left fun c cMem => if_pos (held c cMem)
    _ = cs := List.map_id cs

theorem allBlank_map_heldChar {blanks : List Char} (blank : AllBlank blanks) :
    AllBlank (blanks.map heldChar) := by
  intro _ mem
  obtain ⟨c, cMem, rfl⟩ := List.mem_map.mp mem
  unfold heldChar
  split
  · exact blank c cMem
  · rfl

/-- A key that a document can hold is found among other characters as well. -/
theorem holdsKey_map_heldChar {key cs : List Char} (isName : IsName key)
    (allowed : ∀ c ∈ key, Xml.isAllowed c = true) (held : holdsKey key cs = true) :
    holdsKey key (cs.map heldChar) = true := by
  rw [holdsKey_eq_true_iff isName] at held ⊢
  obtain ⟨inside, ⟨front, behind, rfl⟩, braceFree, named⟩ := held
  refine ⟨inside.map heldChar, ⟨front.map heldChar, behind.map heldChar, ?_⟩, ?_, ?_⟩
  · rw [List.map_append, List.map_cons, List.map_append, List.map_cons]
    rfl
  · intro _ mem
    obtain ⟨c, cMem, rfl⟩ := List.mem_map.mp mem
    unfold heldChar
    split
    · exact braceFree c cMem
    · rfl
  · obtain ⟨before, after, beforeBlank, afterBlank, inside_eq⟩ := exists_blanks_around_trim inside
    rw [inside_eq, named, List.map_append, List.map_append, map_heldChar_eq_self allowed,
      trim_between_blanks (allBlank_map_heldChar beforeBlank) (allBlank_map_heldChar afterBlank),
      isName.trim_eq]

theorem notMem_map_heldChar {cs : List Char} {brace : Char} (held : Xml.isAllowed brace = true)
    (notSpace : brace ≠ ' ') (notMem : brace ∉ cs) : brace ∉ cs.map heldChar := by
  intro mem
  obtain ⟨c, cMem, same⟩ := List.mem_map.mp mem
  rw [heldChar_eq_iff held notSpace] at same
  exact notMem (same ▸ cMem)

end Stencil.Token

namespace Stencil.Word

open Token

variable {values values' : Values} {key : String} {inlines : List Inline}

/-- The text that is written into a paragraph is put together in one pass. -/
theorem filledText_eq_replaceAtOnce (named : values.AreNamed) (inert : AreInert values)
    (inlines : List Inline) :
    filledText values inlines = replaceAtOnce values (textOf inlines).toList := by
  rw [filledText_eq_substitutedText, substitutedText, replaceAllKeys_eq_replaceAtOnce named inert]

/-- Values with which every text is filled alike. -/
def FillAlike (values values' : Values) : Prop :=
  ∀ inlines, filledText values inlines = filledText values' inlines

theorem FillAlike.isChanged_eq (alike : FillAlike values values') (inlines : List Inline) :
    isChanged values inlines = isChanged values' inlines := by
  rw [isChanged, isChanged, alike inlines]

theorem FillAlike.fillOnce_eq (alike : FillAlike values values') (inlines : List Inline) :
    fillOnce values inlines = fillOnce values' inlines := by
  rw [fillOnce, fillOnce, alike.isChanged_eq, alike inlines]

theorem FillAlike.fillTimes_eq (alike : FillAlike values values') (visits : Nat)
    (inlines : List Inline) : fillTimes values visits inlines = fillTimes values' visits inlines := by
  induction visits generalizing inlines with
  | zero => rfl
  | succ visits ih => rw [fillTimes, fillTimes, alike.fillOnce_eq, ih]

theorem FillAlike.acceptsTimes_eq (alike : FillAlike values values') (visits : Nat)
    (inlines : List Inline) :
    acceptsTimes values visits inlines = acceptsTimes values' visits inlines := by
  induction visits generalizing inlines with
  | zero => rfl
  | succ visits ih =>
      rw [acceptsTimes, acceptsTimes, ih, alike.fillOnce_eq, acceptsOnce, acceptsOnce,
        alike.isChanged_eq, alike inlines]

theorem FillAlike.accepts_eq (alike : FillAlike values values') (document : Document) :
    document.accepts values = document.accepts values' := by
  simp only [Document.accepts, alike.acceptsTimes_eq]

/-- Inert values fill every text alike in any order. -/
theorem fillAlike_of_perm (named : values.AreNamed) (inert : AreInert values)
    (perm : values'.Perm values) : FillAlike values' values := by
  intro inlines
  rw [filledText_eq_replaceAtOnce named inert,
    filledText_eq_replaceAtOnce (named.perm perm) (inert.perm perm),
    replaceAtOnce_eq_of_perm named perm]

/-- Of inert values the keys found are those with a token in the text as it was. -/
theorem isFoundIn_iff (named : values.AreNamed) (inert : AreInert values) {text : List Char} :
    IsFoundIn values key text ↔ key ∈ values.map (·.1) ∧ holdsKey key.toList text = true := by
  rw [← mem_keysFound_iff, keysFound_eq_filter named inert, List.mem_filter]

theorem isFoundIn_iff_of_perm (named : values.AreNamed) (inert : AreInert values)
    (perm : values'.Perm values) {text : List Char} :
    IsFoundIn values' key text ↔ IsFoundIn values key text := by
  rw [isFoundIn_iff named inert, isFoundIn_iff (named.perm perm) (inert.perm perm),
    (perm.map _).mem_iff]

namespace Document

theorem mem_keysFound_iff_of_perm (named : values.AreNamed) (inert : AreInert values)
    (perm : values'.Perm values) (document : Document) :
    key ∈ document.keysFound values' ↔ key ∈ document.keysFound values := by
  simp only [keysFound, List.mem_flatMap, mem_keysFoundTimes_iff,
    isFoundIn_iff_of_perm named inert perm, (fillAlike_of_perm named inert perm).fillTimes_eq]

end Document

/-- Two filled documents are the same, and so are the keys reported, in any order. -/
def Filled.Agrees (first second : Filled) : Prop :=
  first.document = second.document ∧ first.unmatched.Perm second.unmatched

/-- Inert values come to the same in any order, in whatever document. -/
theorem Document.fill?_of_perm (named : values.AreNamed) (inert : AreInert values)
    (perm : values'.Perm values) (document : Document) :
    Option.Rel Filled.Agrees (document.fill? values') (document.fill? values) := by
  have alike := fillAlike_of_perm named inert perm
  unfold fill?
  rw [alike.accepts_eq]
  split
  · refine .some ⟨?_, ?_⟩
    · exact mapParagraphs_congr fun paragraph _ => alike.fillTimes_eq paragraph.1 paragraph.2
    · have reported_eq : ((values'.map (·.1)).filter fun key =>
          !(document.keysFound values').contains key) =
            (values'.map (·.1)).filter fun key => !(document.keysFound values).contains key := by
        apply List.filter_congr
        intro key _
        congr 1
        rw [Bool.eq_iff_iff, List.contains_iff_mem, List.contains_iff_mem]
        exact mem_keysFound_iff_of_perm named inert perm document
      rw [reported_eq]
      exact (perm.map _).filter _
  · exact .none

/-- Characters that documents can hold, in keys and in values. -/
def Holdable (values : Values) : Prop :=
  ∀ entry ∈ values, ∀ c ∈ entry.1.toList ++ entry.2.toList, Xml.isAllowed c = true

/-- In every document without links the values come to the same in any order. -/
def IgnoresOrder (values : Values) : Prop :=
  ∀ document : Document, document.IsLinkless → ∀ values', values'.Perm values →
    Option.Rel Filled.Agrees (document.fill? values') (document.fill? values)

/-- A document of one paragraph with one run. -/
def noteOf (text : List Char) : Document :=
  { body := [.paragraph [.run (String.ofList text)]] }

theorem paragraphs_noteOf (text : List Char) :
    (noteOf text).paragraphs = [(1, [.run (String.ofList text)])] :=
  rfl

theorem isLinkless_noteOf (text : List Char) : (noteOf text).IsLinkless := by
  intro paragraph paragraphMem inline inlineMem
  rw [paragraphs_noteOf, List.mem_singleton] at paragraphMem
  subst paragraphMem
  rw [List.mem_singleton.mp inlineMem]
  rfl

theorem toList_textOf_run (text : List Char) :
    (textOf [.run (String.ofList text)]).toList = text := by
  simp [textOf, Inline.text]

/-- The keys reported for a note are those without a token at their turn. -/
theorem fill?_noteOf {text : List Char} (holdable : Holdable values)
    (allowed : ∀ c ∈ text, Xml.isAllowed c = true) :
    ∃ filled, (noteOf text).fill? values = some filled ∧
      ∀ key ∈ values.map (·.1), key ∈ filled.unmatched ↔ ¬IsFoundIn values key text := by
  have accepted : (noteOf text).accepts values = true := by
    have written : ((filledText values [.run (String.ofList text)]).all Xml.isAllowed) = true := by
      rw [filledText_eq_substitutedText, substitutedText, toList_textOf_run, List.all_eq_true]
      intro c cMem
      rcases mem_replaceAllKeys cMem with inText | ⟨entry, entryMem, inValue⟩
      · exact allowed c inText
      · exact holdable entry entryMem c (List.mem_append_right _ inValue)
    simp [Document.accepts, paragraphs_noteOf, acceptsTimes, acceptsOnce, written]
  refine ⟨_, if_pos accepted, fun key keyMem => ?_⟩
  have found_iff : key ∈ (noteOf text).keysFound values ↔ IsFoundIn values key text := by
    simp [Document.keysFound, paragraphs_noteOf, mem_keysFoundTimes_iff, fillTimes,
      toList_textOf_run]
  simp only [List.mem_filter, keyMem, true_and, Bool.not_eq_true', ← found_iff,
    List.contains_eq_mem, decide_eq_false_iff_not]

theorem Holdable.perm (holdable : Holdable values) (perm : values'.Perm values) :
    Holdable values' :=
  fun entry entryMem => holdable entry (perm.mem_iff.mp entryMem)

/-- Where the order does not matter, the same keys are found in a text. -/
theorem IgnoresOrder.isFoundIn_iff (ignores : IgnoresOrder values) (holdable : Holdable values)
    (perm : values'.Perm values) {text : List Char}
    (allowed : ∀ c ∈ text, Xml.isAllowed c = true) (keyMem : key ∈ values.map (·.1)) :
    IsFoundIn values' key text ↔ IsFoundIn values key text := by
  obtain ⟨filled, fill_eq, reported⟩ := fill?_noteOf holdable allowed
  obtain ⟨filled', fill_eq', reported'⟩ := fill?_noteOf (holdable.perm perm) allowed
  have agrees := ignores (noteOf text) (isLinkless_noteOf text) values' perm
  rw [fill_eq, fill_eq'] at agrees
  cases agrees with
  | some same =>
      have keyMem' : key ∈ values'.map (·.1) := (perm.map _).mem_iff.mpr keyMem
      rw [← not_iff_not, ← reported key keyMem, ← reported' key keyMem']
      exact same.2.mem_iff

/-- A value that is not inert towards a key becomes part of a token of it, in a text that a document
can hold and that has no token of the key. -/
theorem exists_text_of_not_isInert {entry other : String × String}
    (entryName : IsName entry.1.toList) (otherName : IsName other.1.toList)
    (differs : other.1 ≠ entry.1) (holdable : Holdable [entry, other])
    (live : ¬IsInert other.1.toList entry.2.toList) :
    ∃ text, (∀ c ∈ text, Xml.isAllowed c = true) ∧ holdsKey other.1.toList text = false ∧
      holdsKey other.1.toList (replaceKey entry.1.toList entry.2.toList text) = true := by
  obtain ⟨entryAllowed, otherAllowed, _⟩ := List.forall_mem_cons.mp holdable |>.imp_right
    List.forall_mem_cons.mp
  obtain ⟨keyAllowed, valueAllowed⟩ := List.forall_mem_append.mp entryAllowed
  have otherKeyAllowed := (List.forall_mem_append.mp otherAllowed).1
  obtain ⟨before, after, unclosed, unopened, held⟩ := exists_of_not_isInert otherName live
  have isToken : IsTokenOf entry.1.toList (.doubled entry.1.toList) :=
    ⟨⟨entryName.braceFree, entryName.trim_eq.symm ▸ entryName.ne_nil⟩,
      congrArg some entryName.trim_eq⟩
  have unclosed := notMem_map_heldChar (by decide) (by decide) unclosed
  have unopened := notMem_map_heldChar (by decide) (by decide) unopened
  -- a token of the one key stands where its value makes a token of the other key whole
  refine ⟨before.map heldChar ++ ((Segment.doubled entry.1.toList).text ++ after.map heldChar),
    ?_, ?_, ?_⟩
  · intro c cMem
    simp only [Segment.text_doubled, List.mem_append, List.mem_cons, List.mem_map,
      List.not_mem_nil, or_false] at cMem
    rcases cMem with ⟨d, _, rfl⟩ | (rfl | rfl | inKey | rfl | rfl) | ⟨d, _, rfl⟩
    · exact isAllowed_heldChar d
    · rfl
    · rfl
    · exact keyAllowed c inKey
    · rfl
    · rfl
    · exact isAllowed_heldChar d
  · have keysDiffer : other.1.toList ≠ entry.1.toList :=
      fun same => differs (String.toList_injective same)
    rw [(isToken.isApart otherName keysDiffer).holdsKey_append,
      holdsKey_of_unclosed otherName unclosed, holdsKey_of_plain unopened]
    rfl
  · rw [isToken.replaceKey_alone entryName unclosed unopened]
    have held := holdsKey_map_heldChar otherName otherKeyAllowed held
    rwa [List.map_append, List.map_append, map_heldChar_eq_self valueAllowed] at held

/-- Two entries can be brought to the front. -/
theorem exists_perm_cons_cons {entry other : String × String} (entryMem : entry ∈ values)
    (otherMem : other ∈ values) (differs : other ≠ entry) :
    ∃ rest, values.Perm (entry :: other :: rest) :=
  ⟨_, (List.perm_cons_erase entryMem).trans
    ((List.perm_cons_erase ((List.mem_erase_of_ne differs).mpr otherMem)).cons entry)⟩

/-- Where the order does not matter, the values are inert: otherwise one of them can be put
where it becomes part of a token of another key, which is found only if it comes later. -/
theorem IgnoresOrder.areInert (named : values.AreNamed) (holdable : Holdable values)
    (ignores : IgnoresOrder values) : AreInert values := by
  intro entry entryMem other otherMem differs
  by_contra live
  have both : Holdable [entry, other] := by
    intro own ownMem
    rcases List.mem_pair.mp ownMem with rfl | rfl
    · exact holdable own entryMem
    · exact holdable own otherMem
  obtain ⟨text, allowed, absent, present⟩ := exists_text_of_not_isInert
    (named.names entry entryMem) (named.names other otherMem) differs.symm both live
  obtain ⟨rest, perm⟩ := exists_perm_cons_cons entryMem otherMem
    fun same => differs (congrArg Prod.fst same).symm
  have found : IsFoundIn (entry :: other :: rest) other.1 text :=
    ⟨[entry], other.2, rest, rfl, present⟩
  have unfound : ¬IsFoundIn (other :: entry :: rest) other.1 text := by
    have nodup := ((perm.trans (List.Perm.swap other entry rest)).map (·.1)).nodup_iff.mp
      named.nodup
    rw [isFoundIn_cons_iff (List.nodup_cons.mp nodup).1, absent]
    exact Bool.false_ne_true
  have keyMem : other.1 ∈ values.map (·.1) := List.mem_map_of_mem otherMem
  apply unfound
  rw [ignores.isFoundIn_iff holdable ((List.Perm.swap entry other rest).trans perm.symm) allowed
    keyMem, ← ignores.isFoundIn_iff holdable perm.symm allowed keyMem]
  exact found

end Stencil.Word

namespace Stencil.Template

open Stencil.Word Token

variable {values values' : Values}

/-- Two ways to fill a template agree: both fail alike, or both fill the document alike and report
the same keys. -/
def Agree : Except FillError Filled → Except FillError Filled → Prop
  | .error error, .error error' => error = error'
  | .ok filled, .ok filled' => filled.Agrees filled'
  | _, _ => False

/-- Filling reads the template without looking at the values. -/
theorem fill_eq (source : Source) (values : Values) :
    fill source values = (documentOf (OpenPackage.ofSource source)).bind fun document =>
      match document.fill? values with
      | some filled => .ok filled
      | none => .error .unwritable :=
  rfl

/-- A template is filled alike with inert values in any order. -/
theorem fill_agree_of_perm (named : values.AreNamed) (inert : AreInert values)
    (perm : values'.Perm values) (source : Source) :
    Agree (fill source values') (fill source values) := by
  rw [fill_eq, fill_eq]
  cases documentOf (OpenPackage.ofSource source) with
  | error error => rfl
  | ok document =>
      have agrees := Document.fill?_of_perm named inert perm document
      simp only [Except.bind]
      generalize document.fill? values' = first at agrees ⊢
      generalize document.fill? values = second at agrees ⊢
      cases agrees with
      | none => rfl
      | some same => exact same

end Stencil.Template

namespace Stencil.Word

open Token

variable {values : Values}

/-- Inert values are put in at once, whatever their order, and so a template is filled alike and the
same keys are reported.  Values that documents can hold have to be inert for that: all others are
read as tokens in some document. -/
theorem order_is_irrelevant_iff_inert (named : values.AreNamed) :
    (AreInert values → ∀ values', values'.Perm values →
      (∀ inlines, filledText values' inlines = replaceAtOnce values (textOf inlines).toList) ∧
      (∀ document : Document,
        Option.Rel Filled.Agrees (document.fill? values') (document.fill? values)) ∧
      ∀ source, Template.Agree (Template.fill source values') (Template.fill source values)) ∧
    (Holdable values → (IgnoresOrder values ↔ AreInert values)) := by
  refine ⟨fun inert values' perm => ⟨fun inlines => ?_, ?_, ?_⟩, fun holdable => ⟨?_, ?_⟩⟩
  · rw [fillAlike_of_perm named inert perm, filledText_eq_replaceAtOnce named inert]
  · exact Document.fill?_of_perm named inert perm
  · exact Template.fill_agree_of_perm named inert perm
  · exact IgnoresOrder.areInert named holdable
  · exact fun inert document _ values' perm => document.fill?_of_perm named inert perm

/-- Values for a letter. -/
def addressValues : Values := [("city", "Oslo"), ("name", "Ann"), ("age", "7")]

theorem order_of_addressValues_is_irrelevant :
    addressValues.AreNamed ∧ AreInert addressValues ∧ IgnoresOrder addressValues ∧
      ∀ source, Template.Agree (Template.fill source addressValues.reverse)
        (Template.fill source addressValues) := by
  have named : addressValues.AreNamed := ⟨by decide +kernel, by decide +kernel⟩
  have foreign : (addressValues.all fun entry => addressValues.all fun other =>
      entry.1 == other.1 || entry.2.toList.any fun c =>
        !Text.isBlank c && !other.1.toList.contains c) = true := by decide +kernel
  have inert : AreInert addressValues := by
    refine areInert_of_foreign named.names (by decide +kernel) ?_
    intro entry entryMem other otherMem differs
    have pair := List.all_eq_true.mp (List.all_eq_true.mp foreign entry entryMem) other otherMem
    simpa [differs] using pair
  have holdable : Holdable addressValues := by
    have all : (addressValues.all fun entry =>
        (entry.1.toList ++ entry.2.toList).all Xml.isAllowed) = true := by decide +kernel
    simpa only [Holdable, List.all_eq_true] using all
  obtain ⟨same, ignores_iff⟩ := order_is_irrelevant_iff_inert named
  exact ⟨named, inert, (ignores_iff holdable).mpr inert,
    (same inert addressValues.reverse (List.reverse_perm addressValues)).2.2⟩

/-- Values, the first of which is a token of the second key. -/
def chainedValues : Values := [("A", "\x7bB\x7d"), ("B", "x")]

/-- A value is read as a token when its key comes first. -/
theorem value_is_read_as_token :
    (noteOf "\x7bA\x7d".toList).IsLinkless ∧ chainedValues.reverse.Perm chainedValues ∧
      ∃ first second, (noteOf "\x7bA\x7d".toList).fill? chainedValues = some first ∧
        (noteOf "\x7bA\x7d".toList).fill? chainedValues.reverse = some second ∧
        first.document.texts = [(true, "x".toList)] ∧ first.unmatched = [] ∧
        second.document.texts = [(true, "\x7bB\x7d".toList)] ∧ second.unmatched = ["B"] := by
  obtain ⟨first, first_eq⟩ :
      ∃ filled, (noteOf "\x7bA\x7d".toList).fill? chainedValues = some filled := ⟨_, rfl⟩
  obtain ⟨second, second_eq⟩ :
      ∃ filled, (noteOf "\x7bA\x7d".toList).fill? chainedValues.reverse = some filled := ⟨_, rfl⟩
  refine ⟨isLinkless_noteOf _, List.reverse_perm _, first, second, first_eq, second_eq, ?_⟩
  rw [Document.eq_of_fill? first_eq, Document.eq_of_fill? second_eq]
  decide +kernel

end Stencil.Word
