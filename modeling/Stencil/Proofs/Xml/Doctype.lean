import Stencil.Proofs.Xml.Markup

/-!
# What is taken off with a document type declaration

The declaration of an entity is read up to its end, whatever stands behind it, and so is one that
is skipped.  That a part is left out is seen from the first character behind the white space.
-/

namespace Stencil.Xml.Doctype

variable {cs rest : List Char}

section External

theorem skipQuoted_cutsOff (read : skipQuoted cs = some rest) :
    CutsOff skipQuoted id cs rest := by
  obtain ⟨behind, readsSpace, read⟩ := Option.bind_eq_some_iff.mp read
  obtain ⟨⟨content, after⟩, readsContent, same⟩ := Option.bind_eq_some_iff.mp read
  cases same
  exact (needSpace_takesOff readsSpace).skip_cutsOff
    ((readQuoted_cutsOff readsContent).bind_pure Prod.snd)

theorem readExternal_system (cs : List Char) :
    readExternal ("SYSTEM".toList ++ cs) = skipQuoted cs := by
  rw [readExternal, afterWord_append]

theorem readExternal_public (cs : List Char) :
    readExternal ("PUBLIC".toList ++ cs) = (skipQuoted cs).bind skipQuoted := by
  have noSystem : afterWord "SYSTEM" ("PUBLIC".toList ++ cs) = none := rfl
  rw [readExternal, noSystem, afterWord_append]

theorem readExternal_cutsOff (read : readExternal cs = some rest) :
    CutsOff readExternal id cs rest := by
  unfold readExternal at read
  split at read
  · next behind _ isSystem =>
      obtain ⟨taken, marked, rfl, reads⟩ := skipQuoted_cutsOff read
      rw [afterWord_eq_some_iff.mp isSystem]
      refine ⟨"SYSTEM".toList ++ taken, marked.append_left _, (List.append_assoc ..).symm,
        fun rest' => ?_⟩
      rw [List.append_assoc, readExternal_system, reads rest']
  · next behind _ isPublic =>
      obtain ⟨middle, readsName, readsPlace⟩ := Option.bind_eq_some_iff.mp read
      obtain ⟨taken, marked, rfl, reads⟩ :=
        (skipQuoted_cutsOff readsName).takesOff.skip_cutsOff (skipQuoted_cutsOff readsPlace)
      rw [afterWord_eq_some_iff.mp isPublic]
      refine ⟨"PUBLIC".toList ++ taken, marked.append_left _, (List.append_assoc ..).symm,
        fun rest' => ?_⟩
      rw [List.append_assoc, readExternal_public]
      exact reads rest'
  · cases read

theorem head?_of_readExternal (read : readExternal cs = some rest) :
    cs.head? = some 'S' ∨ cs.head? = some 'P' := by
  unfold readExternal at read
  split at read
  · next behind _ isSystem =>
      rw [afterWord_eq_some_iff.mp isSystem]
      exact .inl rfl
  · next behind _ isPublic =>
      rw [afterWord_eq_some_iff.mp isPublic]
      exact .inr rfl
  · cases read

theorem skipNotation_of_some {after behind inside : List Char} {name : List Char}
    (isData : afterWord "NDATA" (skipSpace cs) = some after) (spaced : needSpace cs = some behind)
    (readsSpace : needSpace after = some inside) (readsName : readName inside = some (name, rest)) :
    skipNotation cs = some rest := by
  simp [skipNotation, isData, spaced, readsSpace, readsName]

/-- The notation of an external text is read when it is there; otherwise the end of the
declaration follows. -/
theorem skipNotation_takesOff (read : skipNotation cs = some rest)
    (closes : (skipSpace rest).head? = some '>') : TakesOff skipNotation id cs rest := by
  unfold skipNotation at read
  split at read
  · next after isData =>
      obtain ⟨behind, spaced, read⟩ := Option.bind_eq_some_iff.mp read
      obtain ⟨inside, readsSpace, read⟩ := Option.bind_eq_some_iff.mp read
      obtain ⟨⟨name, own⟩, readsName, same⟩ := Option.bind_eq_some_iff.mp read
      cases same
      rw [← needSpace_eq_skipSpace spaced] at isData
      obtain ⟨spaces, rfl, spaceReads⟩ := needSpace_takesOff spaced
      have word := afterWord_eq_some_iff.mp isData
      obtain ⟨inSpace, rfl, spaceReads'⟩ := needSpace_takesOff readsSpace
      obtain ⟨inName, rfl, nameReads⟩ := readName_takesOff readsName
      have marked : IsMarked "NDATA".toList := by decide
      refine ⟨spaces ++ ("NDATA".toList ++ (inSpace ++ inName)), by simp [word],
        fun rest' alike => ?_⟩
      have spaced' : needSpace (spaces ++ ("NDATA".toList ++ (inSpace ++ (inName ++ rest')))) =
          some ("NDATA".toList ++ (inSpace ++ (inName ++ rest'))) := by
        refine spaceReads _ ?_
        rw [word]
        exact alike_append marked _ _
      have isData' := afterWord_append "NDATA" (inSpace ++ (inName ++ rest'))
      rw [needSpace_eq_skipSpace spaced'] at isData'
      simp only [List.append_assoc]
      exact skipNotation_of_some isData' spaced' (spaceReads' _ (alike.append inName))
        (nameReads rest' alike)
  · cases read
    refine ⟨[], rfl, fun rest' alike => ?_⟩
    -- the declaration ends here, so there is no notation
    have missing : afterWord "NDATA" (skipSpace rest') = none :=
      afterWord_eq_none_of_head? (alike.next_eq.trans closes) (by decide) (by decide)
    rw [List.nil_append, skipNotation, missing, id]

end External

section EntityDeclaration

/-- Reads an entity that stands for a text of its own. -/
def readInternal (cs : List Char) : Option (Entity × List Char) := do
  let (value, rest) ← readQuoted cs
  return (.internal (← entityText (value.length + 1) value), rest)

theorem readMeaning_eq (cs : List Char) :
    readMeaning cs =
      if cs.head? = some '"' ∨ cs.head? = some '\'' then readInternal cs
      else (readExternal cs >>= skipNotation) >>= fun rest => pure (.external, rest) := by
  simp only [readMeaning, Bool.or_eq_true, beq_iff_eq, Option.bind_eq_bind, Option.bind_assoc]
  rfl

theorem readInternal_cutsOff {entity : Entity} (read : readInternal cs = some (entity, rest)) :
    CutsOff readInternal (fun rest => (entity, rest)) cs rest := by
  obtain ⟨⟨value, behind⟩, readsValue, read⟩ := Option.bind_eq_some_iff.mp read
  obtain ⟨text, resolves, same⟩ := Option.bind_eq_some_iff.mp read
  cases same
  obtain ⟨taken, marked, rfl, reads⟩ := readQuoted_cutsOff readsValue
  refine ⟨taken, marked, rfl, fun rest' => ?_⟩
  simp [readInternal, reads rest', resolves]

/-- What an entity stands for is read up to the end of its declaration. -/
theorem readMeaning_takesOff {entity : Entity} (read : readMeaning cs = some (entity, rest))
    (closes : (skipSpace rest).head? = some '>') :
    TakesOff readMeaning (fun rest => (entity, rest)) cs rest := by
  rw [readMeaning_eq] at read
  split at read
  · next quoted =>
      obtain ⟨taken, marked, rfl, reads⟩ := readInternal_cutsOff read
      refine ⟨taken, rfl, fun rest' _ => ?_⟩
      rw [← (alike_append marked rest rest').head_eq] at quoted
      rw [readMeaning_eq, if_pos quoted, reads rest']
  · obtain ⟨behind, reads, same⟩ := Option.bind_eq_some_iff.mp read
    obtain ⟨afterPlace, readsPlace, readsNotation⟩ := Option.bind_eq_some_iff.mp reads
    cases same
    obtain ⟨taken, rfl, reads'⟩ := (readExternal_cutsOff readsPlace).takesOff.bind
      (skipNotation_takesOff readsNotation closes)
    refine ⟨taken, rfl, fun rest' alike => ?_⟩
    have found := reads' rest' alike
    obtain ⟨_, readsPlace', _⟩ := Option.bind_eq_some_iff.mp found
    have unquoted : ¬((taken ++ rest').head? = some '"' ∨ (taken ++ rest').head? = some '\'') := by
      rcases head?_of_readExternal readsPlace' with head_eq | head_eq <;> simp [head_eq]
    dsimp only at found
    rw [readMeaning_eq, if_neg unquoted, found]
    rfl

theorem readParameterMark_takesOff {isParameter : Bool}
    (read : readParameterMark cs = some (isParameter, rest)) :
    TakesOff readParameterMark (fun rest => (isParameter, rest)) cs rest := by
  unfold readParameterMark at read
  split at read
  · next behind =>
      obtain ⟨after, readsSpace, same⟩ := Option.map_eq_some_iff.mp read
      cases same
      obtain ⟨spaces, rfl, reads⟩ := needSpace_takesOff readsSpace
      refine ⟨'%' :: spaces, rfl, fun rest' alike => ?_⟩
      rw [List.cons_append, readParameterMark, reads rest' alike]
      rfl
  · next noMark =>
      cases read
      refine ⟨[], rfl, fun rest' alike => ?_⟩
      unfold readParameterMark
      split
      · next behind same =>
          have head_eq := alike.head_eq
          rw [List.nil_append] at same
          rw [same] at head_eq
          obtain ⟨others, rfl⟩ := List.head?_eq_some_iff.mp head_eq.symm
          exact absurd rfl (noMark others)
      · rfl

/-- The declaration of an entity is read up to its end. -/
theorem readEntity_cutsOff {doctype doctype' : Doctype}
    (read : readEntity doctype cs = some (doctype', rest)) :
    CutsOff (readEntity doctype) (fun rest => (doctype', rest)) cs rest := by
  obtain ⟨spaced, readsSpace, read⟩ := Option.bind_eq_some_iff.mp read
  obtain ⟨⟨isParameter, afterMark⟩, readsMark, read⟩ := Option.bind_eq_some_iff.mp read
  obtain ⟨⟨name, afterName⟩, readsName, read⟩ := Option.bind_eq_some_iff.mp read
  obtain ⟨spaced', readsSpace', read⟩ := Option.bind_eq_some_iff.mp read
  obtain ⟨⟨entity, afterMeaning⟩, readsMeaning, read⟩ := Option.bind_eq_some_iff.mp read
  obtain ⟨after, readsEnd, read⟩ := Option.bind_eq_some_iff.mp read
  -- the closing bracket tells that no notation is left to be read
  have closes : (skipSpace afterMeaning).head? = some '>' := by
    rw [afterWord_eq_some_iff.mp readsEnd]
    rfl
  refine (needSpace_takesOff readsSpace).bind_cutsOff ?_
  refine (readParameterMark_takesOff readsMark).bind_cutsOff ?_
  refine (readName_takesOff readsName).bind_cutsOff ?_
  refine (needSpace_takesOff readsSpace').bind_cutsOff ?_
  refine (readMeaning_takesOff readsMeaning closes).bind_cutsOff ?_
  have ends := (afterWord_cutsOff (by decide) readsEnd).skipSpace
  cases isParameter <;> cases read <;> exact ends.bind_pure fun rest => (_, rest)

/-- A declaration is skipped up to its end. -/
theorem skipDeclaration_closesOff {fuel : Nat} (read : skipDeclaration fuel cs = some rest) :
    ClosesOff skipDeclaration id fuel cs rest := by
  induction fuel generalizing cs with
  | zero => cases read
  | succ fuel ih =>
      cases cs with
      | nil => cases read
      | cons c others =>
          rw [skipDeclaration] at read
          split at read
          · next closes =>
              cases read
              obtain rfl := beq_iff_eq.mp closes
              exact .of_step ['>'] [] (by decide) rfl fun fuel' _ rest' => rfl
          · next opened =>
              split at read
              · cases read
              · next noMarkup =>
                  split at read
                  · next quoted =>
                      obtain ⟨⟨content, middle⟩, cuts, skipsRest⟩ :=
                        Option.bind_eq_some_iff.mp read
                      have marked : IsMarked [c] := by
                        simp only [Bool.or_eq_true, beq_iff_eq] at quoted
                        rcases quoted with rfl | rfl <;> decide
                      obtain ⟨inQuotes, _, rfl, cutReads⟩ := cutAfter_cutsOff marked cuts
                      obtain ⟨taken, ends, rfl, skips⟩ := ih skipsRest
                      refine .of_step [c] (inQuotes ++ taken) (by simp [ends]) (by simp)
                        fun fuel' least rest' => ?_
                      rw [List.length_append, List.length_singleton] at least
                      rw [List.singleton_append, skipDeclaration, if_neg opened, if_neg noMarkup,
                        if_pos quoted, List.append_assoc, cutReads]
                      exact skips fuel' (by omega) rest'
                  · next unquoted =>
                      obtain ⟨taken, ends, rfl, skips⟩ := ih read
                      refine .of_step [c] taken (List.mem_append_right [c] ends) rfl
                        fun fuel' least rest' => ?_
                      rw [List.length_singleton] at least
                      rw [List.singleton_append, skipDeclaration, if_neg opened, if_neg noMarkup,
                        if_neg unquoted, skips fuel' (by omega) rest']

/-- The end of a declaration is a bracket. -/
theorem mem_of_readEntity {doctype doctype' : Doctype}
    (read : readEntity doctype cs = some (doctype', [])) : '>' ∈ cs := by
  obtain ⟨spaced, readsSpace, read⟩ := Option.bind_eq_some_iff.mp read
  obtain ⟨⟨isParameter, afterMark⟩, readsMark, read⟩ := Option.bind_eq_some_iff.mp read
  obtain ⟨⟨name, afterName⟩, readsName, read⟩ := Option.bind_eq_some_iff.mp read
  obtain ⟨spaced', readsSpace', read⟩ := Option.bind_eq_some_iff.mp read
  obtain ⟨⟨entity, afterMeaning⟩, readsMeaning, read⟩ := Option.bind_eq_some_iff.mp read
  obtain ⟨after, readsEnd, read⟩ := Option.bind_eq_some_iff.mp read
  have next_eq := afterWord_eq_some_iff.mp readsEnd
  have closes : (skipSpace afterMeaning).head? = some '>' := by
    rw [next_eq]
    rfl
  have inEnd : '>' ∈ afterMeaning :=
    (List.dropWhile_suffix _).subset (List.mem_of_mem_head? closes)
  exact (needSpace_takesOff readsSpace).suffix.subset
    ((readParameterMark_takesOff readsMark).suffix.subset
      ((readName_takesOff readsName).suffix.subset
        ((needSpace_takesOff readsSpace').suffix.subset
          ((readMeaning_takesOff readsMeaning closes).suffix.subset inEnd))))

end EntityDeclaration

section Subset

variable {doctype doctype' : Doctype} {fuel : Nat}

/-- Reads what begins with an angle bracket among the declarations. -/
def readDeclaration (fuel : Nat) (doctype : Doctype) : List Char → Option (Doctype × List Char)
  | '?' :: rest => (skipInstruction rest).map fun rest => (doctype, rest)
  | '!' :: '-' :: '-' :: rest => (skipComment rest).map fun rest => (doctype, rest)
  | '!' :: rest =>
    match afterWord "ENTITY" rest with
    | some rest => readEntity doctype rest
    | none =>
      if ["ELEMENT", "ATTLIST", "NOTATION"].any fun word => (afterWord word rest).isSome then
        (skipDeclaration fuel rest).map fun rest => (doctype, rest)
      else none
  | _ => none

theorem readSubset_markup {behind : List Char} (next_eq : skipSpace cs = '<' :: behind) :
    readSubset (fuel + 1) doctype cs = (readDeclaration fuel doctype behind).bind
      fun (doctype, rest) => readSubset fuel doctype rest := by
  fun_cases readDeclaration fuel doctype behind with
  | case1 rest =>
      rw [readSubset, next_eq, Option.bind_map]
      rfl
  | case2 rest =>
      rw [readSubset, next_eq, Option.bind_map]
      rfl
  | case3 rest noComment after isEntity =>
      simp [readSubset, next_eq, isEntity]
  | case4 rest noComment noEntity isOther =>
      simp only [readSubset, next_eq, noEntity, isOther, if_true, Option.bind_map]
      rfl
  | case5 rest noComment noEntity isOther =>
      simp [readSubset, next_eq, noEntity, isOther]
  | case6 noInstruction noComment noDeclaration =>
      rw [readSubset, next_eq]
      split <;> simp_all

theorem isSome_afterWord_iff {word : String} :
    (afterWord word cs).isSome = true ↔ word.toList <+: cs := by
  rw [Option.isSome_iff_exists]
  constructor
  · rintro ⟨behind, stands⟩
    exact ⟨behind, (afterWord_eq_some_iff.mp stands).symm⟩
  · rintro ⟨behind, rfl⟩
    exact ⟨behind, afterWord_append word behind⟩

theorem readDeclaration_entity (cs : List Char) :
    readDeclaration fuel doctype ("!ENTITY".toList ++ cs) = readEntity doctype cs := by
  have begins : afterWord "ENTITY" ("ENTITY".toList ++ cs) = some cs := afterWord_append _ cs
  simp only [String.reduceToList, List.cons_append, List.nil_append] at begins ⊢
  simp [readDeclaration, begins]

/-- The words with which declarations begin that are skipped. -/
def skippedWords : List String := ["ELEMENT", "ATTLIST", "NOTATION"]

/-- Tells whether a declaration is one that is skipped. -/
structure IsSkipped (cs : List Char) : Prop where
  noComment : ¬"--".toList <+: cs
  noEntity : ¬"ENTITY".toList <+: cs
  isSkipped : ∃ word ∈ skippedWords, word.toList <+: cs

theorem IsSkipped.append_iff {taken : List Char} (ends : '>' ∈ taken) (rest : List Char) :
    IsSkipped (taken ++ rest) ↔ IsSkipped taken := by
  have reach (word : String) (notMem : '>' ∉ word.toList) :
      word.toList <+: taken ++ rest ↔ word.toList <+: taken :=
    prefix_append_iff_of_mem ends notMem rest
  have plain : ∀ word ∈ skippedWords, '>' ∉ word.toList := by decide
  constructor
  · rintro ⟨noComment, noEntity, word, wordMem, stands⟩
    rw [reach _ (by decide)] at noComment noEntity
    exact ⟨noComment, noEntity, word, wordMem, (reach word (plain word wordMem)).mp stands⟩
  · rintro ⟨noComment, noEntity, word, wordMem, stands⟩
    rw [← reach _ (by decide)] at noComment noEntity
    exact ⟨noComment, noEntity, word, wordMem, (reach word (plain word wordMem)).mpr stands⟩

theorem readDeclaration_skipped (skipped : IsSkipped cs) :
    readDeclaration fuel doctype ('!' :: cs) =
      (skipDeclaration fuel cs).map fun rest => (doctype, rest) := by
  have noEntity : afterWord "ENTITY" cs = none := by
    rw [← Option.not_isSome_iff_eq_none, isSome_afterWord_iff]
    exact skipped.noEntity
  have isSkipped : ["ELEMENT", "ATTLIST", "NOTATION"].any
      fun word => (afterWord word cs).isSome := by
    obtain ⟨word, wordMem, stands⟩ := skipped.isSkipped
    exact List.any_eq_true.mpr ⟨word, wordMem, isSome_afterWord_iff.mpr stands⟩
  rw [readDeclaration]
  · simp only [noEntity, isSkipped, if_true]
  · rintro others rfl
    exact skipped.noComment ⟨others, rfl⟩

theorem isSkipped_of_any (noComment : ∀ others, cs = '-' :: '-' :: others → False)
    (noEntity : afterWord "ENTITY" cs = none)
    (isOther : (skippedWords.any fun word => (afterWord word cs).isSome) = true) :
    IsSkipped cs where
  noComment := by
    rintro ⟨others, rfl⟩
    exact noComment others rfl
  noEntity := by
    rw [← isSome_afterWord_iff, noEntity]
    decide
  isSkipped := by
    obtain ⟨word, wordMem, stands⟩ := List.any_eq_true.mp isOther
    exact ⟨word, wordMem, isSome_afterWord_iff.mp stands⟩

/-- A declaration among others is read up to its end. -/
theorem readDeclaration_cutsOff (read : readDeclaration fuel doctype cs = some (doctype', rest)) :
    ∃ taken, IsMarked taken ∧ cs = taken ++ rest ∧ ∀ fuel', min fuel taken.length ≤ fuel' →
      ∀ rest', readDeclaration fuel' doctype (taken ++ rest') = some (doctype', rest') := by
  unfold readDeclaration at read
  split at read
  · next behind =>
      obtain ⟨after, skips, same⟩ := Option.map_eq_some_iff.mp read
      cases same
      obtain ⟨taken, marked, rfl, skipsAll⟩ := skipInstruction_cutsOff skips
      refine ⟨'?' :: taken, marked.append_left ['?'], rfl, fun fuel' _ rest' => ?_⟩
      rw [List.cons_append, readDeclaration, skipsAll rest', Option.map_some, id]
  · next behind =>
      obtain ⟨after, skips, same⟩ := Option.map_eq_some_iff.mp read
      cases same
      obtain ⟨taken, marked, rfl, skipsAll⟩ := skipComment_cutsOff skips
      refine ⟨'!' :: '-' :: '-' :: taken, marked.append_left ['!', '-', '-'], rfl,
        fun fuel' _ rest' => ?_⟩
      simp only [List.cons_append]
      rw [readDeclaration, skipsAll rest', Option.map_some, id]
  · next behind noComment =>
      split at read
      · next after isEntity =>
          obtain ⟨taken, marked, rfl, reads⟩ := readEntity_cutsOff read
          refine ⟨"!ENTITY".toList ++ taken, marked.append_left _, ?_, fun fuel' _ rest' => ?_⟩
          · rw [afterWord_eq_some_iff.mp isEntity]
            simp
          · rw [List.append_assoc, readDeclaration_entity, reads rest']
      · next noEntity =>
          split at read
          · next isOther =>
              obtain ⟨after, skips, same⟩ := Option.map_eq_some_iff.mp read
              cases same
              have skipped := isSkipped_of_any noComment noEntity isOther
              obtain ⟨taken, ends, rfl, skipsAll⟩ := skipDeclaration_closesOff skips
              have marked : IsMarked taken := isMarked_of_bracket ends
              rw [IsSkipped.append_iff ends] at skipped
              refine ⟨'!' :: taken, marked.append_left ['!'], rfl, fun fuel' least rest' => ?_⟩
              rw [List.length_cons] at least
              rw [List.cons_append,
                readDeclaration_skipped ((IsSkipped.append_iff ends rest').mpr skipped),
                skipsAll fuel' (by omega) rest', Option.map_some, id]
          · cases read
  · cases read

/-- Reads a reference to a parameter entity after its mark. -/
def readParameter (cs : List Char) : Option (List Char × List Char) := do
  let (name, rest) ← readName cs
  return (name, ← afterWord ";" rest)

theorem readParameter_cutsOff {name : List Char} (read : readParameter cs = some (name, rest)) :
    CutsOff readParameter (fun rest => (name, rest)) cs rest := by
  obtain ⟨⟨own, afterName⟩, readsName, read⟩ := Option.bind_eq_some_iff.mp read
  obtain ⟨after, readsEnd, same⟩ := Option.bind_eq_some_iff.mp read
  cases same
  exact (readName_takesOff readsName).bind_cutsOff
    ((afterWord_cutsOff (by decide) readsEnd).bind_pure fun rest => (name, rest))

/-- The text that stands in the place of a reference to a parameter entity: that of the entity
between blanks, or nothing. -/
def inPlace (doctype : Doctype) (name rest : List Char) : List Char :=
  match doctype.parameters.lookup name with
  | some (.internal text) => ' ' :: text ++ ' ' :: rest
  | _ => rest

theorem readSubset_parameter {behind : List Char} (next_eq : skipSpace cs = '%' :: behind) :
    readSubset (fuel + 1) doctype cs = (readParameter behind).bind
      fun (name, rest) => readSubset fuel doctype (doctype.inPlace name rest) := by
  simp only [readSubset, next_eq, readParameter, Option.bind_eq_bind, Option.bind_assoc]
  refine Option.bind_congr fun first _ => Option.bind_congr fun rest _ => ?_
  dsimp only [Option.bind_some, Option.pure_def]
  cases held : doctype.parameters.lookup first.1 with
  | none => simp [inPlace, held]
  | some entity => cases entity <;> simp [inPlace, held]

/-- The ways in which declarations are read. -/
inductive ReadsSubset : Nat → Doctype → List Char → Doctype → List Char → Prop
  | closed {fuel : Nat} {doctype : Doctype} {cs rest : List Char} :
      skipSpace cs = ']' :: rest → ReadsSubset (fuel + 1) doctype cs doctype rest
  | parameter {fuel : Nat} {doctype last : Doctype} {cs behind name rest left : List Char} :
      skipSpace cs = '%' :: behind → readParameter behind = some (name, rest) →
        ReadsSubset fuel doctype (doctype.inPlace name rest) last left →
          ReadsSubset (fuel + 1) doctype cs last left
  | declaration {fuel : Nat} {doctype next last : Doctype} {cs behind rest left : List Char} :
      skipSpace cs = '<' :: behind → readDeclaration fuel doctype behind = some (next, rest) →
        ReadsSubset fuel next rest last left → ReadsSubset (fuel + 1) doctype cs last left

theorem readSubset_eq_some_iff :
    readSubset fuel doctype cs = some (doctype', rest) ↔
      ReadsSubset fuel doctype cs doctype' rest := by
  constructor
  · intro read
    induction fuel generalizing doctype cs with
    | zero => cases read
    | succ fuel ih =>
        have markup {behind : List Char} (next_eq : skipSpace cs = '<' :: behind) :
            ReadsSubset (fuel + 1) doctype cs doctype' rest := by
          rw [readSubset_markup next_eq] at read
          obtain ⟨⟨next, after⟩, reads, readsRest⟩ := Option.bind_eq_some_iff.mp read
          exact .declaration next_eq reads (ih readsRest)
        have whole := read
        rw [readSubset] at whole
        split at whole
        · next behind next_eq =>
            cases whole
            exact .closed next_eq
        · next behind next_eq =>
            rw [readSubset_parameter next_eq] at read
            obtain ⟨⟨name, after⟩, reads, readsRest⟩ := Option.bind_eq_some_iff.mp read
            exact .parameter next_eq reads (ih readsRest)
        · next next_eq => exact markup next_eq
        · next next_eq => exact markup next_eq
        · next next_eq => exact markup next_eq
        · cases whole
  · intro reads
    induction reads with
    | closed next_eq => simp [readSubset, next_eq]
    | parameter next_eq reads _ ih =>
        rw [readSubset_parameter next_eq, reads]
        exact ih
    | declaration next_eq reads _ ih =>
        rw [readSubset_markup next_eq, reads]
        exact ih

theorem prefix_declare (entities : Entities) (name : List Char) (entity : Entity) :
    entities <+: declare entities name entity := by
  unfold declare
  split
  · exact List.prefix_rfl
  · exact List.prefix_append _ _

theorem parameters_of_readEntity (read : readEntity doctype cs = some (doctype', rest)) :
    doctype.parameters <+: doctype'.parameters := by
  obtain ⟨_, _, read⟩ := Option.bind_eq_some_iff.mp read
  obtain ⟨⟨isParameter, _⟩, _, read⟩ := Option.bind_eq_some_iff.mp read
  obtain ⟨_, _, read⟩ := Option.bind_eq_some_iff.mp read
  obtain ⟨_, _, read⟩ := Option.bind_eq_some_iff.mp read
  obtain ⟨_, _, read⟩ := Option.bind_eq_some_iff.mp read
  obtain ⟨_, _, read⟩ := Option.bind_eq_some_iff.mp read
  cases isParameter with
  | false =>
      cases read
      exact List.prefix_rfl
  | true =>
      cases read
      exact prefix_declare _ _ _

theorem parameters_of_readDeclaration
    (read : readDeclaration fuel doctype cs = some (doctype', rest)) :
    doctype.parameters <+: doctype'.parameters := by
  unfold readDeclaration at read
  split at read
  · obtain ⟨_, _, same⟩ := Option.map_eq_some_iff.mp read
    cases same
    exact List.prefix_rfl
  · obtain ⟨_, _, same⟩ := Option.map_eq_some_iff.mp read
    cases same
    exact List.prefix_rfl
  · split at read
    · exact parameters_of_readEntity read
    · split at read
      · obtain ⟨_, _, same⟩ := Option.map_eq_some_iff.mp read
        cases same
        exact List.prefix_rfl
      · cases read
  · cases read

/-- Declared parameters stay as they are. -/
theorem ReadsSubset.parameters (reads : ReadsSubset fuel doctype cs doctype' rest) :
    doctype.parameters <+: doctype'.parameters := by
  induction reads with
  | closed => exact List.prefix_rfl
  | parameter _ _ _ ih => exact ih
  | declaration _ reads _ ih => exact (parameters_of_readDeclaration reads).trans ih

theorem inPlace_of_nil (noParameters : doctype.parameters = []) (name rest : List Char) :
    doctype.inPlace name rest = rest := by
  rw [inPlace, noParameters]
  rfl

theorem suffix_of_skipSpace {c : Char} {behind : List Char} (next_eq : skipSpace cs = c :: behind) :
    behind <:+ cs :=
  (List.suffix_cons c behind).trans (next_eq ▸ List.dropWhile_suffix _)

/-- Without parameters nothing is put in place of what was there. -/
theorem ReadsSubset.suffix (reads : ReadsSubset fuel doctype cs doctype' rest)
    (noParameters : doctype'.parameters = []) : rest <:+ cs := by
  induction reads with
  | closed next_eq => exact suffix_of_skipSpace next_eq
  | @parameter fuel doctype last cs behind name rest left next_eq reads readsRest ih =>
      have later := ih noParameters
      rw [inPlace_of_nil (List.prefix_nil.mp (noParameters ▸ readsRest.parameters))] at later
      exact later.trans ((readParameter_cutsOff reads).takesOff.suffix.trans
        (suffix_of_skipSpace next_eq))
  | @declaration fuel doctype next last cs behind rest left next_eq reads _ ih =>
      obtain ⟨taken, _, rfl, _⟩ := readDeclaration_cutsOff reads
      exact (ih noParameters).trans ((List.suffix_append taken rest).trans
        (suffix_of_skipSpace next_eq))

/-- A declaration that adds a parameter ends with a bracket. -/
theorem bracket_of_readDeclaration
    (read : readDeclaration fuel doctype cs = some (doctype', rest))
    (noParameters : doctype.parameters = []) (some_ : doctype'.parameters ≠ []) :
    ∃ front back, cs = front ++ '>' :: back ∧ rest <:+ back := by
  -- what is skipped declares nothing
  have unchanged {skipped : Option (List Char)}
      (read : (skipped.map fun rest => (doctype, rest)) = some (doctype', rest)) : False := by
    obtain ⟨_, _, same⟩ := Option.map_eq_some_iff.mp read
    cases same
    exact some_ noParameters
  unfold readDeclaration at read
  split at read
  · exact (unchanged read).elim
  · exact (unchanged read).elim
  · split at read
    · next behind _ _ after isEntity =>
        obtain ⟨taken, _, rfl, reads⟩ := readEntity_cutsOff read
        have whole := reads []
        rw [List.append_nil] at whole
        obtain ⟨front, back, rfl⟩ := List.append_of_mem (mem_of_readEntity whole)
        refine ⟨"!ENTITY".toList ++ front, back ++ rest, ?_, List.suffix_append back rest⟩
        rw [afterWord_eq_some_iff.mp isEntity]
        simp
    · split at read
      · exact (unchanged read).elim
      · cases read
  · cases read

/-- What is read when there are parameters ends behind a bracket. -/
theorem ReadsSubset.bracket (reads : ReadsSubset fuel doctype cs doctype' rest)
    (noParameters : doctype.parameters = []) :
    doctype'.parameters = [] ∨
      ∃ fuel' front back next middle, cs = front ++ '>' :: back ∧ middle <:+ back ∧
        ReadsSubset fuel' next middle doctype' rest := by
  induction reads with
  | closed => exact .inl noParameters
  | @parameter fuel doctype last cs behind name rest left next_eq reads readsRest ih =>
      refine (ih noParameters).imp_right ?_
      rintro ⟨fuel', front, back, next, middle, place_eq, suffix, readsMiddle⟩
      rw [inPlace_of_nil noParameters] at place_eq
      obtain ⟨taken, rfl⟩ := (readParameter_cutsOff reads).takesOff.suffix.trans
        (suffix_of_skipSpace next_eq)
      exact ⟨fuel', taken ++ front, back, next, middle, by simp [place_eq], suffix, readsMiddle⟩
  | @declaration fuel doctype next last cs behind rest left next_eq reads readsRest ih =>
      obtain ⟨spaces, rfl⟩ := suffix_of_skipSpace next_eq
      -- the first declaration that adds a parameter ends with the bracket
      by_cases added : next.parameters = []
      · refine (ih added).imp_right ?_
        rintro ⟨fuel', front, back, inner, middle, rest_eq, suffix, readsMiddle⟩
        obtain ⟨taken, _, rfl, _⟩ := readDeclaration_cutsOff reads
        exact ⟨fuel', spaces ++ (taken ++ front), back, inner, middle, by simp [rest_eq], suffix,
          readsMiddle⟩
      · obtain ⟨front, back, rfl, suffix⟩ := bracket_of_readDeclaration reads noParameters added
        exact .inr ⟨fuel, spaces ++ front, back, next, rest, by simp, suffix, readsRest⟩

end Subset

section Opening

/-- Reads a document type declaration up to its inner declarations or its end. -/
def readOpening (cs : List Char) : Option (List Char) := do
  let (_, rest) ← readQName (← needSpace cs)
  return skipSpace (← skipExternal rest)

theorem read_eq (cs : List Char) :
    read cs = (readOpening cs).bind fun rest => (readDeclarations rest).bind
      fun (doctype, rest) => (afterWord ">" (skipSpace rest)).map fun rest => (doctype, rest) := by
  simp only [read, readOpening, Option.bind_eq_bind, Option.bind_assoc, Option.map_eq_bind]
  rfl

theorem skipExternal_of_readExternal {behind : List Char} (spaced : needSpace cs = some behind)
    (read : readExternal behind = some rest) : skipExternal cs = some rest := by
  have found : (afterWord "SYSTEM" (skipSpace cs)).isSome = true ∨
      (afterWord "PUBLIC" (skipSpace cs)).isSome = true := by
    rw [← needSpace_eq_skipSpace spaced]
    unfold readExternal at read
    split at read
    · next isSystem => exact .inl (by rw [isSystem]; rfl)
    · next isPublic => exact .inr (by rw [isPublic]; rfl)
    · cases read
  simp [skipExternal, found, spaced, read]

theorem skipExternal_takesOff {c : Char} (read : skipExternal cs = some rest)
    (next_eq : (skipSpace rest).head? = some c) (bracket : c = '[' ∨ c = '>') :
    TakesOff skipExternal id cs rest := by
  unfold skipExternal at read
  dsimp only at read
  split at read
  · obtain ⟨behind, spaced, reads⟩ := Option.bind_eq_some_iff.mp read
    obtain ⟨spaces, rfl, spaceReads⟩ := needSpace_takesOff spaced
    obtain ⟨taken, marked, rfl, placeReads⟩ := readExternal_cutsOff reads
    refine ⟨spaces ++ taken, (List.append_assoc ..).symm, fun rest' _ => ?_⟩
    rw [List.append_assoc]
    exact skipExternal_of_readExternal (spaceReads _ (alike_append marked rest rest'))
      (placeReads rest')
  · cases read
    refine ⟨[], rfl, fun rest' alike => ?_⟩
    have head_eq := alike.next_eq.trans next_eq
    have missing (word : String) (other : word.toList.head? ≠ some c) (filled : word.toList ≠ []) :
        afterWord word (skipSpace rest') = none := afterWord_eq_none_of_head? head_eq other filled
    rcases bracket with rfl | rfl <;>
      simp [skipExternal, missing "SYSTEM" (by decide) (by decide),
        missing "PUBLIC" (by decide) (by decide)]

/-- White space is taken off up to what is behind it. -/
theorem skipSpace_takesOff (cs : List Char) :
    TakesOff (fun cs => some (skipSpace cs)) id cs (skipSpace cs) := by
  obtain ⟨spaces, cs_eq, isRun⟩ := exists_spaces cs
  refine ⟨spaces, cs_eq, fun rest' alike => ?_⟩
  exact congrArg some (skipSpace_append (isRun.of_head?_eq alike.head_eq))

/-- The opening of a document type declaration is taken off up to a bracket. -/
theorem readOpening_takesOff {c : Char} (read : readOpening cs = some rest)
    (head_eq : rest.head? = some c) (bracket : c = '[' ∨ c = '>') :
    TakesOff readOpening id cs rest := by
  obtain ⟨behind, spaced, read⟩ := Option.bind_eq_some_iff.mp read
  obtain ⟨⟨name, afterName⟩, readsName, read⟩ := Option.bind_eq_some_iff.mp read
  obtain ⟨after, skips, same⟩ := Option.bind_eq_some_iff.mp read
  cases same
  refine (needSpace_takesOff spaced).bind ((readQName_takesOff readsName).bind ?_)
  exact (skipExternal_takesOff skips head_eq bracket).bind (skipSpace_takesOff after)

theorem skipSpace_of_readOpening (read : readOpening cs = some rest) : skipSpace rest = rest := by
  obtain ⟨_, _, read⟩ := Option.bind_eq_some_iff.mp read
  obtain ⟨⟨_, _⟩, _, read⟩ := Option.bind_eq_some_iff.mp read
  obtain ⟨after, _, same⟩ := Option.bind_eq_some_iff.mp read
  cases same
  exact skipSpace_skipSpace after

theorem head?_of_readDeclarations {doctype : Doctype} {left : List Char}
    (read : readDeclarations cs = some (doctype, rest))
    (ends : afterWord ">" (skipSpace rest) = some left) (noSpace : skipSpace cs = cs) :
    ∃ c, cs.head? = some c ∧ (c = '[' ∨ c = '>') := by
  unfold readDeclarations at read
  split at read
  · exact ⟨'[', rfl, .inl rfl⟩
  · cases read
    rw [noSpace, afterWord_eq_some_iff] at ends
    exact ⟨'>', by rw [ends]; rfl, .inr rfl⟩

/-- A document type declaration consists of its opening, its inner declarations and its end. -/
theorem exists_of_read {doctype : Doctype} (read : Doctype.read cs = some (doctype, rest)) :
    ∃ opened middle c, opened.head? = some c ∧ (c = '[' ∨ c = '>') ∧
      TakesOff readOpening id cs opened ∧ readDeclarations opened = some (doctype, middle) ∧
        CutsOff (fun cs => afterWord ">" (skipSpace cs)) id middle rest := by
  rw [read_eq] at read
  obtain ⟨opened, opens, read⟩ := Option.bind_eq_some_iff.mp read
  obtain ⟨⟨own, middle⟩, readsInner, read⟩ := Option.bind_eq_some_iff.mp read
  obtain ⟨left, ends, same⟩ := Option.map_eq_some_iff.mp read
  cases same
  obtain ⟨c, head_eq, bracket⟩ := head?_of_readDeclarations readsInner ends
    (skipSpace_of_readOpening opens)
  exact ⟨opened, middle, c, head_eq, bracket, readOpening_takesOff opens head_eq bracket,
    readsInner, (afterWord_cutsOff (by decide) ends).skipSpace⟩

theorem suffix_of_read {doctype : Doctype} (read : Doctype.read cs = some (doctype, rest))
    (noParameters : doctype.parameters = []) : rest <:+ cs := by
  obtain ⟨opened, middle, _, _, _, opens, readsInner, ends⟩ := exists_of_read read
  have inner : middle <:+ opened := by
    unfold readDeclarations at readsInner
    split at readsInner
    · next behind =>
        exact ((readSubset_eq_some_iff.mp readsInner).suffix noParameters).trans
          (List.suffix_cons _ _)
    · cases readsInner
      exact List.suffix_rfl
  exact ends.takesOff.suffix.trans (inner.trans opens.suffix)

end Opening

end Stencil.Xml.Doctype
