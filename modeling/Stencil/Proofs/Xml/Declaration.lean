import Stencil.Proofs.Xml.Reading
import Stencil.Xml.Declaration

/-!
# What is taken off with a declaration

The declaration of a document is read up to its end, whatever stands behind it.  That an item is
left out is seen from the first character behind the white space.
-/

namespace Stencil.Xml

variable {cs rest : List Char}

namespace Declaration

variable {name : String} {value : List Char}

theorem readItem_cutsOff (marked : IsMarked name.toList)
    (read : readItem name cs = some (value, rest)) :
    CutsOff (readItem name) (fun rest => (value, rest)) cs rest := by
  obtain ⟨afterName, readsName, read⟩ := Option.bind_eq_some_iff.mp read
  obtain ⟨afterEq, readsEq, readsValue⟩ := Option.bind_eq_some_iff.mp read
  refine (afterWord_cutsOff marked readsName).takesOff.skip_cutsOff ?_
  refine (afterWord_cutsOff (by decide) readsEq).skipSpace.takesOff.skip_cutsOff ?_
  exact (readQuoted_cutsOff readsValue).skipSpace

variable {isValue : List Char → Bool} {item : Option (List Char)}

theorem head?_of_readItem (filled : name.toList ≠ [])
    (read : readItem name cs = some (value, rest)) :
    cs.head? = name.toList.head? := by
  obtain ⟨afterName, readsName, _⟩ := Option.bind_eq_some_iff.mp read
  rw [afterWord_eq_some_iff.mp readsName, head?_append_of_ne_nil filled]

/-- An item that may be left out is there, or something else follows. -/
theorem readOptional_cases
    (read : readOptional name isValue cs = some (item, rest)) :
    (∃ value behind, item = some value ∧ isValue value = true ∧ needSpace cs = some behind ∧
      readItem name behind = some (value, rest)) ∨
      item = none ∧ rest = cs := by
  unfold readOptional at read
  split at read
  · obtain ⟨behind, readsSpace, read⟩ := Option.bind_eq_some_iff.mp read
    obtain ⟨⟨value, after⟩, readsItem, read⟩ := Option.bind_eq_some_iff.mp read
    dsimp only at read
    split at read
    · next isValue_eq =>
        cases read
        exact .inl ⟨value, behind, rfl, isValue_eq, readsSpace, readsItem⟩
    · cases read
  · cases read
    exact .inr ⟨rfl, rfl⟩

theorem readOptional_of_item {behind : List Char} (readsSpace : needSpace cs = some behind)
    (readsItem : readItem name behind = some (value, rest)) (isValue_eq : isValue value = true) :
    readOptional name isValue cs = some (some value, rest) := by
  have begins : (afterWord name (skipSpace cs)).isSome = true := by
    obtain ⟨afterName, readsName, _⟩ := Option.bind_eq_some_iff.mp readsItem
    rw [← needSpace_eq_skipSpace readsSpace, readsName]
    rfl
  simp only [readOptional, begins, if_true, readsSpace, readsItem, isValue_eq, Option.bind_eq_bind,
    Option.bind_some]
  rfl

theorem readOptional_takesOff (marked : IsMarked name.toList) {c : Char}
    (other : name.toList.head? ≠ some c)
    (read : readOptional name isValue cs = some (item, rest))
    (next_eq : item = none → (skipSpace rest).head? = some c) :
    TakesOff (readOptional name isValue) (fun rest => (item, rest)) cs rest := by
  rcases readOptional_cases read with
    ⟨value, behind, rfl, isValue_eq, readsSpace, readsItem⟩ | ⟨rfl, rfl⟩
  · obtain ⟨spaces, rfl, spaceReads⟩ := needSpace_takesOff readsSpace
    obtain ⟨taken, takenMarked, rfl, itemReads⟩ := readItem_cutsOff marked readsItem
    refine ⟨spaces ++ taken, (List.append_assoc ..).symm, fun rest' _ => ?_⟩
    rw [List.append_assoc]
    exact readOptional_of_item (spaceReads _ (alike_append takenMarked rest rest'))
      (itemReads rest') isValue_eq
  · refine ⟨[], rfl, fun rest' alike => ?_⟩
    have missing : afterWord name (skipSpace rest') = none :=
      afterWord_eq_none_of_head? (alike.next_eq.trans (next_eq rfl)) other marked.ne_nil
    simp [readOptional, missing]

/-- Tells whether a text says if a document stands alone. -/
def isAnswer (value : List Char) : Bool :=
  value == "yes".toList || value == "no".toList

/-- Reads what follows the version in a declaration. -/
def readTail (cs : List Char) : Option (Declaration × List Char) := do
  let (encoding, rest) ← readOptional "encoding" isEncodingName cs
  let (_, rest) ← readOptional "standalone" isAnswer rest
  let rest ← afterWord "?>" (skipSpace rest)
  return ({ encoding }, rest)

theorem readItems_eq (cs : List Char) :
    readItems cs = (needSpace cs >>= readItem "version") >>= fun read =>
      if isVersion read.1 then readTail read.2 else none := by
  simp only [readItems, Option.bind_eq_bind, Option.bind_assoc]
  refine Option.bind_congr fun behind _ => Option.bind_congr fun read _ => ?_
  cases isVersion read.1 <;> rfl

theorem readTail_cutsOff {declaration : Declaration}
    (read : readTail cs = some (declaration, rest)) :
    CutsOff readTail (fun rest => (declaration, rest)) cs rest := by
  obtain ⟨⟨encoding, afterEncoding⟩, readsEncoding, read⟩ := Option.bind_eq_some_iff.mp read
  obtain ⟨⟨standalone, afterStandalone⟩, readsStandalone, read⟩ := Option.bind_eq_some_iff.mp read
  obtain ⟨after, readsEnd, same⟩ := Option.bind_eq_some_iff.mp read
  cases same
  have closes : (skipSpace afterStandalone).head? = some '?' := by
    rw [afterWord_eq_some_iff.mp readsEnd]
    rfl
  -- what follows the place of the encoding, if that is left out
  have next_eq : ∃ c, (skipSpace afterEncoding).head? = some c ∧ c ≠ 'e' := by
    rcases readOptional_cases readsStandalone with
      ⟨value, behind, _, _, readsSpace, readsItem⟩ | ⟨_, rfl⟩
    · refine ⟨'s', ?_, by decide⟩
      rw [← needSpace_eq_skipSpace readsSpace, head?_of_readItem (by decide) readsItem]
      rfl
    · exact ⟨'?', closes, by decide⟩
  obtain ⟨c, next_eq, other⟩ := next_eq
  refine (readOptional_takesOff (by decide) (by simpa using other.symm) readsEncoding
    fun _ => next_eq).bind_cutsOff ?_
  refine (readOptional_takesOff (by decide) (by decide) readsStandalone
    fun _ => closes).bind_cutsOff ?_
  exact (afterWord_cutsOff (by decide) readsEnd).skipSpace.bind_pure fun rest =>
    (({ encoding } : Declaration), rest)

/-- A declaration is read up to its end. -/
theorem readItems_cutsOff {declaration : Declaration}
    (read : readItems cs = some (declaration, rest)) :
    CutsOff readItems (fun rest => (declaration, rest)) cs rest := by
  rw [readItems_eq] at read
  obtain ⟨⟨version, afterVersion⟩, readsVersion, read⟩ := Option.bind_eq_some_iff.mp read
  obtain ⟨behind, readsSpace, readsItem⟩ := Option.bind_eq_some_iff.mp readsVersion
  dsimp only at read
  split at read
  · next isVersion_eq =>
      have item := (needSpace_takesOff readsSpace).bind
        (readItem_cutsOff (by decide) readsItem).takesOff
      rw [funext readItems_eq]
      refine item.bind_cutsOff ?_
      simpa [isVersion_eq] using readTail_cutsOff read
  · cases read

end Declaration

end Stencil.Xml
