import Stencil.Proofs.Xml.Reference
import Stencil.Xml.Event

/-!
# What is taken off with a piece of markup

A comment, an instruction and a tag are read up to their ends, whatever stands behind them.
-/

namespace Stencil.Xml

section Asides

variable {cs rest : List Char}

/-- A comment is skipped up to its end. -/
theorem skipComment_cutsOff (read : Doctype.skipComment cs = some rest) :
    CutsOff Doctype.skipComment id cs rest := by
  obtain ⟨⟨content, middle⟩, readContent, readEnd⟩ := Option.bind_eq_some_iff.mp read
  exact (cutAfter_cutsOff (by decide) readContent).takesOff.bind_cutsOff
    (afterWord_cutsOff (by decide) readEnd)

/-- An instruction is skipped up to its end. -/
theorem skipInstruction_cutsOff (read : Doctype.skipInstruction cs = some rest) :
    CutsOff Doctype.skipInstruction id cs rest := by
  obtain ⟨⟨target, middle⟩, readTarget, readRest⟩ := Option.bind_eq_some_iff.mp read
  refine (readName_takesOff readTarget).bind_cutsOff ?_
  dsimp only at readRest ⊢
  split at readRest
  · cases readRest
  · next unreserved =>
      simp only [unreserved]
      split at readRest
      · next closed =>
          cases readRest
          obtain ⟨taken, marked, middle_eq, reads⟩ := afterWord_cutsOff (by decide) closed
          refine ⟨taken, marked, middle_eq, fun rest' => ?_⟩
          simp only [reads rest']
          rfl
      · next opened =>
          obtain ⟨inside, readSpace, readInside⟩ := Option.bind_eq_some_iff.mp readRest
          obtain ⟨⟨content, after⟩, readContent, same⟩ := Option.bind_eq_some_iff.mp readInside
          cases same
          obtain ⟨taken, marked, middle_eq, reads⟩ :=
            (needSpace_takesOff readSpace).skip_cutsOff
              ((cutAfter_cutsOff (by decide) readContent).bind_pure Prod.snd)
          refine ⟨taken, marked, middle_eq, fun rest' => ?_⟩
          -- the instruction goes on with white space, so it does not end here
          have opened' : afterWord "?>" (taken ++ rest') = none := by
            rw [Option.eq_none_iff_forall_ne_some]
            intro after' closed
            have heads := congrArg List.head? (afterWord_eq_some_iff.mp closed)
            rw [(alike_append marked after rest').head_eq, ← middle_eq] at heads
            obtain ⟨space, isSpace_eq⟩ := head?_of_needSpace readSpace
            rw [isSpace_eq.1] at heads
            cases heads
            exact absurd isSpace_eq.2 (by decide)
          simp only [opened']
          exact reads rest'

end Asides

section Tags

variable {cs rest : List Char}

theorem head?_of_readQName {name : QName} (read : readQName cs = some (name, rest)) :
    ∃ c, cs.head? = some c ∧ isNameStart c = true := by
  obtain ⟨⟨first, middle⟩, readFirst, _⟩ := Option.bind_eq_some_iff.mp read
  cases cs with
  | nil => cases readFirst
  | cons c others =>
      rw [readName] at readFirst
      split at readFirst
      · next start => exact ⟨c, rfl, start⟩
      · cases readFirst

/-- Reads a single attribute. -/
def readAttribute (cs : List Char) : Option ((QName × List Char) × List Char) := do
  let (name, rest) ← readQName cs
  let rest ← afterWord "=" (skipSpace rest)
  let (value, rest) ← readQuoted (skipSpace rest)
  return ((name, value), rest)

theorem readAttribute_cutsOff {item : QName × List Char}
    (read : readAttribute cs = some (item, rest)) :
    CutsOff readAttribute (fun rest => (item, rest)) cs rest := by
  obtain ⟨⟨name, afterName⟩, readsName, read⟩ := Option.bind_eq_some_iff.mp read
  obtain ⟨afterEq, readsEq, read⟩ := Option.bind_eq_some_iff.mp read
  obtain ⟨⟨value, afterValue⟩, readsValue, same⟩ := Option.bind_eq_some_iff.mp read
  cases same
  refine (readQName_takesOff readsName).bind_cutsOff ?_
  refine (afterWord_cutsOff (by decide) readsEq).skipSpace.takesOff.skip_cutsOff ?_
  exact (readQuoted_cutsOff readsValue).skipSpace.bind_pure fun read => ((name, read.1), read.2)

/-- Where a tag does not end, an attribute is read. -/
theorem readAttributes_of_name {fuel : Nat} {next : List Char} (next_eq : skipSpace cs = next)
    {c : Char} (head_eq : next.head? = some c) (start : isNameStart c = true) :
    readAttributes (fuel + 1) cs =
      if (cs.head?.map isSpace).getD false then
        (readAttribute next).bind fun (item, rest) =>
          (readAttributes fuel rest).map fun (others, read) => (item :: others, read)
      else none := by
  obtain ⟨others, rfl⟩ := List.head?_eq_some_iff.mp head_eq
  rw [readAttributes, next_eq]
  split
  · next same =>
      cases same
      exact absurd start (by decide)
  · next same =>
      cases same
      exact absurd start (by decide)
  · cases (cs.head?.map isSpace).getD false with
    | false => rfl
    | true =>
        simp only [readAttribute, Bool.not_true, Bool.false_eq_true, if_false, if_true,
          Option.bind_eq_bind, Option.bind_assoc, Option.pure_def, Option.bind_some,
          Option.map_eq_bind]
        rfl

/-- The ways in which the attributes of a tag are read. -/
inductive ReadsAttributes : Nat → List Char → List (QName × List Char) → Bool → List Char → Prop
  | opened {fuel : Nat} {cs rest : List Char} :
      skipSpace cs = '>' :: rest → ReadsAttributes (fuel + 1) cs [] false rest
  | finished {fuel : Nat} {cs rest : List Char} :
      skipSpace cs = '/' :: '>' :: rest → ReadsAttributes (fuel + 1) cs [] true rest
  | item {fuel : Nat} {cs middle rest : List Char} {item : QName × List Char}
      {others : List (QName × List Char)} {isFinished : Bool} {c : Char} :
      (cs.head?.map isSpace).getD false = true → (skipSpace cs).head? = some c →
        isNameStart c = true → readAttribute (skipSpace cs) = some (item, middle) →
          ReadsAttributes fuel middle others isFinished rest →
            ReadsAttributes (fuel + 1) cs (item :: others) isFinished rest

theorem readsAttributes_of_read {fuel : Nat} {attributes : List (QName × List Char)}
    {isFinished : Bool} (read : readAttributes fuel cs = some (attributes, isFinished, rest)) :
    ReadsAttributes fuel cs attributes isFinished rest := by
  induction fuel generalizing cs attributes with
  | zero => cases read
  | succ fuel ih =>
      have whole := read
      rw [readAttributes] at read
      split at read
      · next behind next_eq =>
          cases read
          exact .opened next_eq
      · next behind next_eq =>
          cases read
          exact .finished next_eq
      · split at read
        · cases read
        · obtain ⟨⟨name, afterName⟩, readsName, _⟩ := Option.bind_eq_some_iff.mp read
          obtain ⟨c, head_eq, start⟩ := head?_of_readQName readsName
          rw [readAttributes_of_name rfl head_eq start] at whole
          split at whole
          · next spaced =>
              obtain ⟨⟨item, middle⟩, readsItem, whole⟩ := Option.bind_eq_some_iff.mp whole
              obtain ⟨⟨others, behind⟩, readsOthers, same⟩ := Option.map_eq_some_iff.mp whole
              cases same
              exact .item spaced head_eq start readsItem (ih readsOthers)
          · cases whole

/-- The attributes of a tag are read up to its end. -/
theorem readAttributes_closesOff {fuel : Nat} {attributes : List (QName × List Char)}
    {isFinished : Bool} (reads : ReadsAttributes fuel cs attributes isFinished rest) :
    ClosesOff readAttributes (fun rest => (attributes, isFinished, rest)) fuel cs rest := by
  induction reads with
  | @opened fuel cs rest next_eq =>
      have marked : IsMarked ['>'] := by decide
      obtain ⟨spaces, cs_eq, skips⟩ := exists_spaces_before marked next_eq
      refine .of_step spaces ['>'] (by simp) cs_eq fun fuel' _ rest' => ?_
      rw [readAttributes, skips rest']
      rfl
  | @finished fuel cs rest next_eq =>
      have marked : IsMarked ['/', '>'] := by decide
      obtain ⟨spaces, cs_eq, skips⟩ := exists_spaces_before marked next_eq
      refine .of_step spaces ['/', '>'] (by simp) cs_eq fun fuel' _ rest' => ?_
      rw [readAttributes, skips rest']
      rfl
  | @item fuel cs middle rest item others isFinished c spaced head_eq start readsItem _ ih =>
      obtain ⟨inItem, itemMarked, next_eq, itemReads⟩ := readAttribute_cutsOff readsItem
      obtain ⟨inOthers, ends, rfl, othersReads⟩ := ih
      have positive := List.length_pos_iff.mpr itemMarked.ne_nil
      have marked : IsMarked (inItem ++ inOthers) := itemMarked.append_right inOthers
      rw [← List.append_assoc] at next_eq
      obtain ⟨spaces, cs_eq, skips⟩ := exists_spaces_before marked next_eq
      refine .of_step spaces (inItem ++ inOthers) (by simp [ends]) cs_eq fun fuel' least rest' => ?_
      -- how reading goes on is decided by what was taken
      have alike := (alike_append marked rest rest').head_eq
      rw [cs_eq, ← head?_append_congr alike] at spaced
      rw [next_eq, ← alike] at head_eq
      rw [List.length_append] at least
      rw [readAttributes_of_name (skips rest') head_eq start, if_pos spaced, List.append_assoc,
        itemReads, Option.bind_some]
      dsimp only
      rw [othersReads fuel' (by omega) rest', Option.map_some]

/-- Reads a start tag: its name, its attributes, and whether the element is finished with it. -/
def readTag (fuel : Nat) (cs : List Char) :
    Option ((QName × List (QName × List Char) × Bool) × List Char) := do
  let (name, rest) ← readQName cs
  let (attributes, isFinished, rest) ← readAttributes fuel rest
  return ((name, attributes, isFinished), rest)

/-- A start tag is read up to its end. -/
theorem readTag_closesOff {fuel : Nat} {tag : QName × List (QName × List Char) × Bool}
    (read : readTag fuel cs = some (tag, rest)) :
    ClosesOff readTag (fun rest => (tag, rest)) fuel cs rest := by
  obtain ⟨⟨name, afterName⟩, readsName, read⟩ := Option.bind_eq_some_iff.mp read
  obtain ⟨⟨attributes, isFinished, behind⟩, readsRest, same⟩ := Option.bind_eq_some_iff.mp read
  cases same
  obtain ⟨inName, rfl, nameReads⟩ := readQName_takesOff readsName
  obtain ⟨inRest, ends, rfl, restReads⟩ :=
    readAttributes_closesOff (readsAttributes_of_read readsRest)
  have marked : IsMarked inRest := isMarked_of_bracket ends
  refine ⟨inName ++ inRest, List.mem_append_right inName ends, (List.append_assoc ..).symm,
    fun fuel' least rest' => ?_⟩
  rw [List.length_append] at least
  rw [List.append_assoc, readTag, nameReads _ (alike_append marked rest rest')]
  simp only [Option.bind_eq_bind, Option.bind_some]
  rw [restReads fuel' (by omega) rest']
  rfl

/-- Reads the end tag of an element. -/
def readEndTag (cs : List Char) : Option (QName × List Char) := do
  let (name, rest) ← readQName cs
  let rest ← afterWord ">" (skipSpace rest)
  return (name, rest)

theorem readEndTag_cutsOff {name : QName} (read : readEndTag cs = some (name, rest)) :
    CutsOff readEndTag (fun rest => (name, rest)) cs rest := by
  obtain ⟨⟨own, afterName⟩, readsName, read⟩ := Option.bind_eq_some_iff.mp read
  obtain ⟨behind, readsEnd, same⟩ := Option.bind_eq_some_iff.mp read
  cases same
  refine (readQName_takesOff readsName).bind_cutsOff ?_
  exact (afterWord_cutsOff (by decide) readsEnd).skipSpace.bind_pure fun rest => (name, rest)

end Tags

end Stencil.Xml
