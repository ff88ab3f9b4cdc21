import Stencil.Proofs.Xml.Markup
import Stencil.Proofs.Xml.Tree

/-!
# What is read of content

A piece of markup in the content of a document is either a section of plain characters, which
adds its text, or it adds events that are no text and is read alike whatever stands behind it.
-/

namespace Stencil.Xml

/-- The end of a section of plain characters. -/
def sectionEnd : List Char := [']', ']', '>']

namespace Scan

variable {use : EntityUse} {entities : Entities} {fuel : Nat} {scan next : Scan}
  {cs rest : List Char}

/-- A scan that has added events to what another one had read, with as much room left as a third
one has, and as deep as that. -/
structure Adds (entities : Entities) (events : List Event) (next scan' next' : Scan) : Prop where
  events_eq : next'.events = events ++ scan'.events
  depth_eq : next'.depth = next.depth
  room : entities.HasRoom next.allowance next'.allowance

/-- Markup that adds events without text, whatever stands behind it and was read before it. -/
def ReadsMarkup (use : EntityUse) (entities : Entities) (fuel : Nat) (scan next : Scan)
    (cs rest : List Char) : Prop :=
  ∃ taken events, IsMarked taken ∧ cs = taken ++ rest ∧ (∀ event ∈ events, event.text? = none) ∧
    next.events = events ++ scan.events ∧
    ∀ fuel', min fuel taken.length ≤ fuel' → ∀ scan' : Scan, scan'.depth = scan.depth →
      entities.HasRoom scan.allowance scan'.allowance → ∀ rest', ∃ next',
        scan'.readMarkup use entities fuel' (taken ++ rest') = some (next', rest') ∧
          Adds entities events next scan' next'

/-- A section of plain characters, which adds its text. -/
def ReadsSection (scan next : Scan) (cs rest : List Char) : Prop :=
  ∃ content, cs = "![CDATA[".toList ++ (content ++ (sectionEnd ++ rest)) ∧
    ¬sectionEnd <:+: content ∧ next = scan.push (.text content)

theorem readMarkup_of_name {c : Char} (head_eq : cs.head? = some c) (start : isNameStart c = true) :
    scan.readMarkup use entities fuel cs = scan.readStart use entities fuel cs := by
  obtain ⟨others, rfl⟩ := List.head?_eq_some_iff.mp head_eq
  rw [readMarkup]
  · rintro rest same
    cases same
    exact absurd start (by decide)
  · rintro rest same
    cases same
    exact absurd start (by decide)
  · rintro rest same
    cases same
    exact absurd start (by decide)

/-- The end of a tag adds an event, and so does a start tag that finishes its element. -/
theorem readFinish_eq (scan : Scan) (cs : List Char) :
    scan.readFinish cs = (readEndTag cs).map fun (name, rest) =>
      ({ scan.push (.finish name) with depth := scan.depth - 1 }, rest) := by
  simp only [readFinish, readEndTag, Option.map_eq_bind, Option.bind_eq_bind, Option.bind_assoc]
  rfl

/-- The events of a start tag, the last one first. -/
def tagEvents (name : QName) (values : List (QName × List Char)) (isFinished : Bool) :
    List Event :=
  if isFinished then [.finish name, .start name values] else [.start name values]

theorem readStart_eq (scan : Scan) (cs : List Char) :
    scan.readStart use entities fuel cs =
      (readTag fuel cs).bind fun ((name, attributes, isFinished), rest) =>
        (entities.attributeValues use scan.allowance attributes).map fun (values, allowance) =>
          ({ events := tagEvents name values isFinished ++ scan.events
             depth := if isFinished then scan.depth else scan.depth + 1
             allowance }, rest) := by
  simp only [readStart, readTag, Option.map_eq_bind, Option.bind_eq_bind, Option.bind_assoc]
  refine Option.bind_congr fun first _ => Option.bind_congr fun second _ => ?_
  refine Option.bind_congr fun third _ => ?_
  dsimp only
  cases second.2.1 <;> rfl

theorem readFinish_readsMarkup {behind : List Char}
    (read : scan.readFinish behind = some (next, rest)) :
    ReadsMarkup use entities fuel scan next ('/' :: behind) rest := by
  rw [readFinish_eq] at read
  obtain ⟨⟨name, after⟩, readsTag, same⟩ := Option.map_eq_some_iff.mp read
  cases same
  obtain ⟨taken, marked, rfl, reads⟩ := readEndTag_cutsOff readsTag
  refine ⟨'/' :: taken, [.finish name], marked.append_left ['/'], rfl, by simp [Event.text?], rfl,
    fun fuel' _ scan' depth_eq room rest' => ?_⟩
  refine ⟨{ scan'.push (.finish name) with depth := scan'.depth - 1 }, ?_, rfl, ?_, room⟩
  · rw [List.cons_append, readMarkup, readFinish_eq, reads rest']
    rfl
  · rw [depth_eq]

theorem readStart_readsMarkup (read : scan.readStart use entities fuel cs = some (next, rest)) :
    ReadsMarkup use entities fuel scan next cs rest := by
  rw [readStart_eq] at read
  obtain ⟨⟨⟨name, attributes, isFinished⟩, after⟩, readsTag, read⟩ :=
    Option.bind_eq_some_iff.mp read
  obtain ⟨⟨values, left⟩, expands, same⟩ := Option.map_eq_some_iff.mp read
  cases same
  obtain ⟨⟨own, _⟩, readsName, _⟩ := Option.bind_eq_some_iff.mp readsTag
  obtain ⟨c, head_eq, start⟩ := head?_of_readQName readsName
  obtain ⟨taken, ends, rfl, reads⟩ := readTag_closesOff readsTag
  have marked : IsMarked taken := isMarked_of_bracket ends
  refine ⟨taken, tagEvents name values isFinished, marked, rfl, ?_, rfl,
    fun fuel' least scan' depth_eq room rest' => ?_⟩
  · cases isFinished <;> simp [tagEvents, Event.text?]
  · obtain ⟨left', expands', roomLeft⟩ := Entities.attributeValues_hasRoom expands room
    refine ⟨{ events := tagEvents name values isFinished ++ scan'.events
              depth := if isFinished then scan'.depth else scan'.depth + 1
              allowance := left' }, ?_, rfl, by rw [depth_eq], roomLeft⟩
    -- a tag begins with a name, whatever follows it, so it is no other markup
    rw [readMarkup_of_name ((alike_append marked rest rest').head_eq.trans head_eq) start,
      readStart_eq, reads fuel' least rest', Option.bind_some]
    dsimp only
    rw [expands', Option.map_some]

/-- An aside adds one event. -/
theorem readsMarkup_of_cutsOff {skip : List Char → Option (List Char)} {behind : List Char}
    (opening : List Char) (skips : CutsOff skip id behind rest)
    (reads : ∀ (fuel' : Nat) (scan' : Scan) (cs' : List Char),
      scan'.readMarkup use entities fuel' (opening ++ cs') =
        (skip cs').map fun rest => (scan'.push .aside, rest)) :
    ReadsMarkup use entities fuel scan (scan.push .aside) (opening ++ behind) rest := by
  obtain ⟨taken, marked, rfl, skips⟩ := skips
  refine ⟨opening ++ taken, [.aside], marked.append_left opening, (List.append_assoc ..).symm,
    by simp [Event.text?], rfl, fun fuel' _ scan' depth_eq room rest' => ?_⟩
  refine ⟨scan'.push .aside, ?_, rfl, depth_eq, room⟩
  rw [List.append_assoc, reads, skips rest', Option.map_some, id]

theorem readMarkup_instruction (scan : Scan) (cs : List Char) :
    scan.readMarkup use entities fuel (['?'] ++ cs) =
      (Doctype.skipInstruction cs).map fun rest => (scan.push .aside, rest) := by
  rw [List.singleton_append, readMarkup, Option.map_eq_bind]
  rfl

theorem readMarkup_comment (scan : Scan) (cs : List Char) :
    scan.readMarkup use entities fuel ("!--".toList ++ cs) =
      (Doctype.skipComment cs).map fun rest => (scan.push .aside, rest) := by
  have begins : afterWord "--" ('-' :: '-' :: cs) = some cs := afterWord_append "--" cs
  simp only [String.reduceToList, List.cons_append, List.nil_append, readMarkup, begins,
    Option.map_eq_bind]
  rfl

theorem readMarkup_section (scan : Scan) (cs : List Char) :
    scan.readMarkup use entities fuel ("![CDATA[".toList ++ cs) =
      (cutAfter sectionEnd cs).map fun (content, rest) => (scan.push (.text content), rest) := by
  have begins : afterWord "[CDATA[" ("[CDATA[".toList ++ cs) = some cs := afterWord_append _ cs
  have noComment : afterWord "--" ("[CDATA[".toList ++ cs) = none := rfl
  simp only [String.reduceToList, List.cons_append, List.nil_append] at begins noComment ⊢
  simp only [readMarkup, begins, noComment, Option.map_eq_bind]
  rfl

/-- The end of a section begins nowhere in front of it unless it stands there. -/
theorem beginsNowhere_sectionEnd_iff {content : List Char} :
    Text.BeginsNowhere sectionEnd content sectionEnd ↔ ¬sectionEnd <:+: content := by
  constructor
  · rintro nowhere ⟨front, back, rfl⟩
    refine nowhere (sectionEnd ++ back) ?_ (by simp [sectionEnd]) ?_
    · rw [List.append_assoc]
      exact List.suffix_append front _
    · rw [List.append_assoc]
      exact List.prefix_append _ _
  · intro free suffix isSuffix filled stands
    -- where it would begin, less than its length is left in front of it
    match suffix with
    | [x] => simp [sectionEnd] at stands
    | [x, y] => simp [sectionEnd] at stands
    | x :: y :: z :: others =>
        have within : sectionEnd <+: x :: y :: z :: others :=
          List.prefix_of_prefix_length_le stands (List.prefix_append _ _) (by simp [sectionEnd])
        exact free (within.isInfix.trans isSuffix.isInfix)

theorem cutAfter_sectionEnd_iff {content : List Char} :
    cutAfter sectionEnd cs = some (content, rest) ↔
      cs = content ++ (sectionEnd ++ rest) ∧ ¬sectionEnd <:+: content := by
  rw [cutAfter_eq_some_iff (by simp [sectionEnd]), beginsNowhere_sectionEnd_iff]

theorem readMarkup_cases (read : scan.readMarkup use entities fuel cs = some (next, rest)) :
    ReadsMarkup use entities fuel scan next cs rest ∨ ReadsSection scan next cs rest := by
  unfold readMarkup at read
  split at read
  · next behind => exact .inl (readFinish_readsMarkup read)
  · next behind =>
      obtain ⟨after, skips, same⟩ := Option.bind_eq_some_iff.mp read
      cases same
      exact .inl (readsMarkup_of_cutsOff ['?'] (skipInstruction_cutsOff skips)
        fun _ scan' cs' => readMarkup_instruction scan' cs')
  · next behind =>
      split at read
      · next after _ begins =>
          rw [afterWord_eq_some_iff] at begins
          obtain ⟨after', skips, same⟩ := Option.bind_eq_some_iff.mp read
          cases same
          rw [begins]
          exact .inl (readsMarkup_of_cutsOff "!--".toList
            (skipComment_cutsOff skips) fun _ scan' cs' => readMarkup_comment scan' cs')
      · next after noComment begins =>
          rw [afterWord_eq_some_iff] at begins
          obtain ⟨⟨content, after'⟩, cuts, same⟩ := Option.bind_eq_some_iff.mp read
          cases same
          obtain ⟨after_eq, free⟩ := cutAfter_sectionEnd_iff.mp cuts
          refine .inr ⟨content, ?_, free, rfl⟩
          rw [begins, after_eq]
          rfl
      · cases read
  · exact .inl (readStart_readsMarkup read)

/-- What was read when an entity is behind: its events, or a single one that stands for them. -/
def afterEntity (use : EntityUse) (scan inner : Scan) : Scan :=
  match use with
  | .resolve => { scan with events := inner.events, allowance := inner.allowance }
  | .keep => { scan with allowance := inner.allowance }.push .aside

/-- The ways in which content is read. -/
inductive Reads (use : EntityUse) : Nat → Entities → Scan → List Char → Scan → List Char → Prop
  | done {fuel : Nat} {entities : Entities} {scan : Scan} :
      Reads use (fuel + 1) entities scan [] scan []
  | finished {fuel : Nat} {entities : Entities} {scan next : Scan} {cs rest : List Char} :
      scan.readMarkup use entities fuel cs = some (next, rest) → next.depth = 0 →
        Reads use (fuel + 1) entities scan ('<' :: cs) next rest
  | markup {fuel : Nat} {entities : Entities} {scan next last : Scan} {cs rest left : List Char} :
      scan.readMarkup use entities fuel cs = some (next, rest) → next.depth ≠ 0 →
        Reads use fuel entities next rest last left →
          Reads use (fuel + 1) entities scan ('<' :: cs) last left
  | char {fuel : Nat} {entities : Entities} {scan last : Scan} {cs rest left : List Char}
      {c : Char} :
      Reference.read cs = some (.char c, rest) →
        Reads use fuel entities (scan.push (.text [c])) rest last left →
          Reads use (fuel + 1) entities scan ('&' :: cs) last left
  | entity {fuel : Nat} {entities : Entities} {scan inner last : Scan}
      {cs name text rest left : List Char} :
      Reference.read cs = some (.entity name, rest) →
        entities.lookup name = some (.internal text) → text.length ≤ scan.allowance →
          Reads use fuel (entities.whileExpanding name)
            { scan with depth := 1, allowance := scan.allowance - text.length } text inner [] →
            inner.depth = 1 →
              Reads use fuel entities (afterEntity use scan inner) rest last left →
                Reads use (fuel + 1) entities scan ('&' :: cs) last left
  | kept {fuel : Nat} {entities : Entities} {scan last : Scan} {cs name rest left : List Char} :
      use = .keep → Reference.read cs = some (.entity name, rest) →
        (∀ text, entities.lookup name ≠ some (.internal text)) →
          entities.lookup name ≠ some .expanding →
            Reads use fuel entities (scan.push .aside) rest last left →
              Reads use (fuel + 1) entities scan ('&' :: cs) last left
  | plain {fuel : Nat} {entities : Entities} {scan last : Scan} {run rest left : List Char} :
      run ≠ [] → IsRun isPlain run rest → ¬sectionEnd <:+: run →
        Reads use fuel entities (scan.push (.text run)) rest last left →
          Reads use (fuel + 1) entities scan (run ++ rest) last left

theorem occursIn_eq_true_iff {pattern text : List Char} :
    Text.occursIn pattern text = true ↔ pattern <:+: text := by
  induction text with
  | nil => simp [Text.occursIn]
  | cons x rest ih =>
      rw [Text.occursIn, Bool.or_eq_true, List.isPrefixOf_iff_prefix, ih, List.infix_cons_iff]

theorem reads_of_content {last : Scan} {left : List Char}
    (read : content use fuel entities scan cs = some (last, left)) :
    Reads use fuel entities scan cs last left := by
  fun_induction content use fuel entities scan cs generalizing last left with
  -- the cases in which the content is not read
  | case1 | case4 | case8 | case10 | case11 => cases read
  | case2 =>
      cases read
      exact .done
  | case3 fuel entities scan rest ih =>
      obtain ⟨⟨next, behind⟩, reads, read⟩ := Option.bind_eq_some_iff.mp read
      dsimp only at read
      split at read
      · next closed =>
          cases read
          exact .finished reads (beq_iff_eq.mp closed)
      · next opened => exact .markup reads (mt beq_iff_eq.mpr opened) (ih next behind read)
  | case5 fuel entities scan cs c rest isChar ih => exact .char isChar (ih read)
  | case6 fuel entities scan cs name rest isEntity text held tooLong => simp [tooLong] at read
  | case7 fuel entities scan cs name rest isEntity text held fits ihInner ihResolve ihKeep =>
      simp only [fits, if_false] at read
      obtain ⟨⟨inner, behind⟩, readsInner, read⟩ := Option.bind_eq_some_iff.mp read
      dsimp only at read
      split at read
      · cases read
      · next balanced =>
          simp only [Bool.or_eq_true, bne_iff_ne, Bool.not_eq_true', not_or, ne_eq, not_not,
            Bool.not_eq_false, List.isEmpty_iff] at balanced
          obtain ⟨depth_eq, rfl⟩ := balanced
          refine .entity isEntity held (Nat.le_of_not_lt fits) (ihInner readsInner) depth_eq ?_
          split at read
          · exact ihResolve inner read
          · exact ihKeep inner read
  | case9 fuel entities scan cs name rest isEntity keeps noText notExpanding ih =>
      exact .kept keeps isEntity noText notExpanding (ih (keeps ▸ read))
  | case12 fuel entities scan cs filled noMarkup noReference run free =>
      rename_i ih
      have split_eq : cs.takeWhile isPlain ++ cs.dropWhile isPlain = cs :=
        List.takeWhile_append_dropWhile
      rw [← split_eq]
      refine .plain ?_ (isRun_takeWhile isPlain cs) (mt occursIn_eq_true_iff.mpr free) (ih read)
      rcases List.exists_cons_of_ne_nil filled with ⟨c, others, rfl⟩
      have isPlain_eq : isPlain c = true := by
        simp only [isPlain, Bool.and_eq_true, bne_iff_ne]
        exact ⟨fun same => noMarkup others (same ▸ rfl),
          fun same => noReference others (same ▸ rfl)⟩
      rw [List.takeWhile_cons_of_pos isPlain_eq]
      exact List.cons_ne_nil _ _

theorem content_of_reads {last : Scan} {left : List Char}
    (reads : Reads use fuel entities scan cs last left) :
    content use fuel entities scan cs = some (last, left) := by
  induction reads with
  | done => rfl
  | finished reads closed => simp [content, reads, closed]
  | markup reads opened _ ih => simp [content, reads, opened, ih]
  | char isChar _ ih => simp [content, isChar, ih]
  | entity isEntity held fits _ depth_eq _ ihInner ihRest =>
      simp only [content, isEntity, held, Nat.not_lt.mpr fits, if_false, ihInner,
        Option.bind_eq_bind, Option.bind_some, depth_eq, bne_self_eq_false, List.isEmpty_nil,
        Bool.not_true, Bool.or_self, Bool.false_eq_true]
      rw [← ihRest]
      cases use <;> rfl
  | kept keeps isEntity noText notExpanding _ ih =>
      subst keeps
      rw [content, isEntity, ← ih]
      dsimp only
      split
      · next _ text held => exact absurd held (noText text)
      · next held => exact absurd held notExpanding
      · rfl
      · next same _ _ => cases same
  | @plain fuel entities scan last run rest left filled isRun free _ ih =>
      rcases List.exists_cons_of_ne_nil filled with ⟨c, others, rfl⟩
      -- the run begins with neither markup nor a reference
      have isPlain_eq : isPlain c = true := isRun.all c List.mem_cons_self
      simp only [isPlain, Bool.and_eq_true, bne_iff_ne] at isPlain_eq
      have free' : ¬Text.occursIn [']', ']', '>'] (c :: others) = true :=
        mt occursIn_eq_true_iff.mp free
      rw [content, isRun.takeWhile_append, isRun.dropWhile_append, if_neg free', ih]
      · simp
      · intro behind same
        exact isPlain_eq.1 (List.cons.inj same).1
      · intro behind same
        exact isPlain_eq.2 (List.cons.inj same).1

theorem readMarkup_suffix (read : scan.readMarkup use entities fuel cs = some (next, rest)) :
    rest <:+ cs := by
  rcases readMarkup_cases read with ⟨taken, _, _, rfl, _⟩ | ⟨content, rfl, _, _⟩
  · exact List.suffix_append taken rest
  · exact ⟨"![CDATA[".toList ++ (content ++ sectionEnd), by simp⟩

/-- What is left of a content is its end. -/
theorem Reads.suffix {last : Scan} {left : List Char}
    (reads : Reads use fuel entities scan cs last left) : left <:+ cs := by
  induction reads with
  | done => exact List.suffix_rfl
  | finished reads => exact (readMarkup_suffix reads).trans (List.suffix_cons _ _)
  | markup reads _ _ ih => exact (ih.trans (readMarkup_suffix reads)).trans (List.suffix_cons _ _)
  | char isChar _ ih =>
      exact (ih.trans (readReference_cutsOff isChar).takesOff.suffix).trans (List.suffix_cons _ _)
  | entity isEntity _ _ _ _ _ _ ih =>
      exact (ih.trans (readReference_cutsOff isEntity).takesOff.suffix).trans
        (List.suffix_cons _ _)
  | kept _ isEntity _ _ _ ih =>
      exact (ih.trans (readReference_cutsOff isEntity).takesOff.suffix).trans
        (List.suffix_cons _ _)
  | plain _ _ _ _ ih => exact ih.trans (List.suffix_append _ _)

/-- Content that begins with markup is read behind it. -/
theorem Reads.behind_markup {last : Scan} {left : List Char}
    (reads : Reads use fuel entities scan ('<' :: cs) last left) :
    ∃ less next rest, scan.readMarkup use entities less cs = some (next, rest) ∧
      (last = next ∧ left = rest ∨ Reads use less entities next rest last left) := by
  have read := content_of_reads reads
  cases fuel with
  | zero => cases read
  | succ less =>
      obtain ⟨⟨next, rest⟩, readsMarkup, read⟩ := Option.bind_eq_some_iff.mp read
      refine ⟨less, next, rest, readsMarkup, ?_⟩
      dsimp only at read
      split at read
      · cases read
        exact .inl ⟨rfl, rfl⟩
      · exact .inr (reads_of_content read)

/-- A start tag ends with a bracket and adds no text. -/
theorem bracket_of_readMarkup {c : Char}
    (read : scan.readMarkup use entities fuel cs = some (next, rest)) (head_eq : cs.head? = some c)
    (start : isNameStart c = true) :
    (∃ front back, cs = front ++ '>' :: back ∧ rest <:+ back) ∧
      ∃ events, (∀ event ∈ events, event.text? = none) ∧ next.events = events ++ scan.events := by
  rw [readMarkup_of_name head_eq start, readStart_eq] at read
  obtain ⟨⟨⟨name, attributes, isFinished⟩, after⟩, readsTag, read⟩ :=
    Option.bind_eq_some_iff.mp read
  obtain ⟨⟨values, left⟩, expands, same⟩ := Option.map_eq_some_iff.mp read
  cases same
  obtain ⟨taken, ends, rfl, _⟩ := readTag_closesOff readsTag
  refine ⟨?_, tagEvents name values isFinished, ?_, rfl⟩
  · obtain ⟨front, back, rfl⟩ := List.append_of_mem ends
    exact ⟨front, back ++ rest, by simp, List.suffix_append back rest⟩
  · cases isFinished <;> simp [tagEvents, Event.text?]

end Scan

end Stencil.Xml
