import Stencil.Proofs.Xml.Declaration
import Stencil.Proofs.Xml.Doctype
import Stencil.Proofs.Xml.Content

/-!
# What is in front of the root element

A document begins with a declaration, or without one, and with comments and instructions around a
document type declaration.  A document that has all this behind it begins with its root element.
-/

namespace Stencil.Xml.Node

variable {fuel : Nat} {cs rest : List Char}

/-- Text that is no white space, comment or instruction. -/
structure IsBody (cs : List Char) : Prop where
  noSpace : skipSpace cs = cs
  noInstruction : ¬"<?".toList <+: cs
  noComment : ¬"<!--".toList <+: cs

/-- The ways in which white space, comments and instructions are skipped. -/
inductive SkipsAside : Nat → List Char → List Char → Prop
  | done {fuel : Nat} {cs : List Char} :
      IsBody (skipSpace cs) → SkipsAside (fuel + 1) cs (skipSpace cs)
  | instruction {fuel : Nat} {cs behind rest left : List Char} :
      skipSpace cs = '<' :: '?' :: behind → Doctype.skipInstruction behind = some rest →
        SkipsAside fuel rest left → SkipsAside (fuel + 1) cs left
  | comment {fuel : Nat} {cs behind rest left : List Char} :
      skipSpace cs = '<' :: '!' :: '-' :: '-' :: behind → Doctype.skipComment behind = some rest →
        SkipsAside fuel rest left → SkipsAside (fuel + 1) cs left

theorem skipAside_eq_some_iff : skipAside fuel cs = some rest ↔ SkipsAside fuel cs rest := by
  constructor
  · intro skips
    induction fuel generalizing cs with
    | zero => cases skips
    | succ fuel ih =>
        rw [skipAside] at skips
        split at skips
        · next behind next_eq =>
            obtain ⟨after, skipsFirst, skipsRest⟩ := Option.bind_eq_some_iff.mp skips
            exact .instruction next_eq skipsFirst (ih skipsRest)
        · next behind next_eq =>
            obtain ⟨after, skipsFirst, skipsRest⟩ := Option.bind_eq_some_iff.mp skips
            exact .comment next_eq skipsFirst (ih skipsRest)
        · next noInstruction noComment =>
            cases skips
            refine .done ⟨skipSpace_skipSpace cs, ?_, ?_⟩
            · rintro ⟨behind, next_eq⟩
              exact noInstruction behind next_eq.symm
            · rintro ⟨behind, next_eq⟩
              exact noComment behind next_eq.symm
  · intro skips
    induction skips with
    | done body =>
        rw [skipAside]
        split
        · next behind next_eq => exact absurd ⟨behind, next_eq.symm⟩ body.noInstruction
        · next behind next_eq => exact absurd ⟨behind, next_eq.symm⟩ body.noComment
        · rfl
    | instruction next_eq skipsFirst _ ih => simp [skipAside, next_eq, skipsFirst, ih]
    | comment next_eq skipsFirst _ ih => simp [skipAside, next_eq, skipsFirst, ih]

theorem SkipsAside.isBody (skips : SkipsAside fuel cs rest) : IsBody rest := by
  induction skips with
  | done body => exact body
  | instruction _ _ _ ih => exact ih
  | comment _ _ _ ih => exact ih

theorem suffix_skipSpace (part : List Char) (next_eq : skipSpace cs = part ++ rest) :
    rest <:+ cs :=
  (List.suffix_append part rest).trans (next_eq ▸ List.dropWhile_suffix _)

theorem SkipsAside.suffix (skips : SkipsAside fuel cs rest) : rest <:+ cs := by
  induction skips with
  | done => exact List.dropWhile_suffix _
  | @instruction fuel cs behind rest left next_eq skipsFirst _ ih =>
      have inside := (skipInstruction_cutsOff skipsFirst).takesOff.suffix
      exact ih.trans (inside.trans (suffix_skipSpace ['<', '?'] next_eq))
  | @comment fuel cs behind rest left next_eq skipsFirst _ ih =>
      have inside := (skipComment_cutsOff skipsFirst).takesOff.suffix
      exact ih.trans (inside.trans (suffix_skipSpace ['<', '!', '-', '-'] next_eq))

theorem SkipsAside.eq_of_isBody (skips : SkipsAside fuel cs rest) (body : IsBody cs) :
    rest = cs := by
  cases skips with
  | done => exact body.noSpace
  | instruction next_eq =>
      rw [body.noSpace] at next_eq
      exact absurd ⟨_, next_eq.symm⟩ body.noInstruction
  | comment next_eq =>
      rw [body.noSpace] at next_eq
      exact absurd ⟨_, next_eq.symm⟩ body.noComment

/-- A start tag is the beginning of a body. -/
theorem isBody_of_isNameStart {c : Char} (start : isNameStart c = true) (behind : List Char) :
    IsBody ('<' :: c :: behind) where
  noSpace := rfl
  noInstruction := by
    rintro ⟨_, same⟩
    obtain rfl : '?' = c := (List.cons.inj (List.cons.inj same).2).1
    exact absurd start (by decide)
  noComment := by
    rintro ⟨_, same⟩
    obtain rfl : '!' = c := (List.cons.inj (List.cons.inj same).2).1
    exact absurd start (by decide)

theorem isBody_nil : IsBody [] :=
  ⟨rfl, by decide, by decide⟩

theorem isBody_doctype (behind : List Char) : IsBody ("<!DOCTYPE".toList ++ behind) where
  noSpace := rfl
  noInstruction := by
    rintro ⟨_, same⟩
    cases same
  noComment := by
    rintro ⟨_, same⟩
    cases same

theorem readDoctype_of_isNameStart {c : Char} (start : isNameStart c = true) (behind : List Char) :
    readDoctype ('<' :: c :: behind) = some ({}, '<' :: c :: behind) := by
  have unopened : afterWord "<!DOCTYPE" ('<' :: c :: behind) = none := by
    rw [Option.eq_none_iff_forall_ne_some]
    intro rest opens
    rw [afterWord_eq_some_iff] at opens
    obtain rfl : c = '!' := (List.cons.inj (List.cons.inj opens).2).1
    exact absurd start (by decide)
  rw [readDoctype, unopened]

theorem suffix_of_readDoctype {doctype : Doctype} (read : readDoctype cs = some (doctype, rest))
    (noParameters : doctype.parameters = []) : rest <:+ cs := by
  unfold readDoctype at read
  split at read
  · next behind opens =>
      rw [afterWord_eq_some_iff.mp opens]
      exact (Doctype.suffix_of_read read noParameters).trans (List.suffix_append _ _)
  · cases read
    exact List.suffix_rfl

theorem isNameChar_of_isSpace {c : Char} (space : isSpace c = true) : isNameChar c = false := by
  simp only [isSpace, Bool.or_eq_true, beq_iff_eq] at space
  rcases space with ((rfl | rfl) | rfl) | rfl <;> decide

/-- The opening of a declaration is no instruction. -/
theorem skipInstruction_xml (spaced : (cs.head?.map isSpace).getD false = true) :
    Doctype.skipInstruction ("xml".toList ++ cs) = none := by
  cases cs with
  | nil => cases spaced
  | cons c behind =>
      have inName : "ml".toList.all isNameChar = true := by decide
      have isRun : IsRun isNameChar "ml".toList (c :: behind) := by
        refine ⟨List.all_eq_true.mp inName, fun d dMem => ?_⟩
        obtain rfl : c = d := Option.some.inj dMem
        exact isNameChar_of_isSpace spaced
      have readsName :
          readName ("xml".toList ++ c :: behind) = some ("xml".toList, c :: behind) := by
        have start : isNameStart 'x' = true := by decide
        have taken := isRun.takeWhile_append
        have left := isRun.dropWhile_append
        simp only [String.reduceToList, List.cons_append, List.nil_append] at taken left ⊢
        rw [readName, if_pos start, taken, left]
      rw [Doctype.skipInstruction, readsName]
      rfl

/-- Where asides can be skipped, no declaration stands. -/
theorem SkipsAside.declaration (skips : SkipsAside fuel cs rest) :
    Declaration.read cs = some ({}, cs) := by
  unfold Declaration.read
  split
  · next behind opens =>
      rw [afterWord_eq_some_iff] at opens
      split
      · next spaced =>
          have noSpace : skipSpace cs = cs := by
            rw [opens]
            rfl
          -- a declaration would be an instruction with a reserved target
          cases skips with
          | done body =>
              refine absurd ?_ body.noInstruction
              rw [noSpace, opens]
              exact ⟨'x' :: 'm' :: 'l' :: behind, rfl⟩
          | instruction next_eq skipsFirst _ =>
              rw [noSpace, opens] at next_eq
              obtain rfl : "xml".toList ++ behind = _ := (List.cons.inj (List.cons.inj next_eq).2).2
              rw [skipInstruction_xml spaced] at skipsFirst
              cases skipsFirst
          | comment next_eq =>
              rw [noSpace, opens] at next_eq
              cases next_eq
      · rfl
  · rfl

theorem suffix_of_declaration {declaration : Declaration}
    (read : Declaration.read cs = some (declaration, rest)) : rest <:+ cs := by
  unfold Declaration.read at read
  split at read
  · next behind opens =>
      rw [afterWord_eq_some_iff] at opens
      split at read
      · rw [opens]
        exact (Declaration.readItems_cutsOff read).takesOff.suffix.trans (List.suffix_append _ _)
      · cases read
        exact List.suffix_rfl
  · cases read
    exact List.suffix_rfl

/-- Reads what is in front of the root element of a document of a size. -/
def readProlog (size : Nat) (cs : List Char) : Option (Doctype × List Char) := do
  let (_, rest) ← Declaration.read cs
  let (doctype, rest) ← readDoctype (← skipAside (size + 1) rest)
  return (doctype, ← skipAside (size + 1) rest)

/-- The parts of a prolog: what is behind the declaration, behind what lies aside there, behind the
document type, and behind all. -/
structure ReadsProlog (size : Nat) (cs first second : List Char) (doctype : Doctype)
    (third rest : List Char) : Prop where
  declares : ∃ declaration, Declaration.read cs = some (declaration, first)
  skipsFirst : SkipsAside (size + 1) first second
  declaresType : readDoctype second = some (doctype, third)
  skipsSecond : SkipsAside (size + 1) third rest

section Prolog

variable {size : Nat} {first second third : List Char} {doctype : Doctype}

theorem readProlog_eq_some_iff : readProlog size cs = some (doctype, rest) ↔
    ∃ first second third, ReadsProlog size cs first second doctype third rest := by
  constructor
  · intro read
    obtain ⟨⟨declaration, first⟩, declares, read⟩ := Option.bind_eq_some_iff.mp read
    obtain ⟨second, skipsFirst, read⟩ := Option.bind_eq_some_iff.mp read
    obtain ⟨⟨own, third⟩, declaresType, read⟩ := Option.bind_eq_some_iff.mp read
    obtain ⟨behind, skipsSecond, same⟩ := Option.bind_eq_some_iff.mp read
    cases same
    exact ⟨first, second, third, ⟨declaration, declares⟩, skipAside_eq_some_iff.mp skipsFirst,
      declaresType, skipAside_eq_some_iff.mp skipsSecond⟩
  · rintro ⟨first, second, third, ⟨declaration, declares⟩, skipsFirst, declaresType, skipsSecond⟩
    rw [← skipAside_eq_some_iff] at skipsFirst skipsSecond
    simp [readProlog, declares, skipsFirst, declaresType, skipsSecond]

theorem ReadsProlog.suffix_first (reads : ReadsProlog size cs first second doctype third rest) :
    first <:+ cs := by
  obtain ⟨declaration, declares⟩ := reads.declares
  exact suffix_of_declaration declares

theorem ReadsProlog.suffix_second (reads : ReadsProlog size cs first second doctype third rest) :
    second <:+ cs :=
  reads.skipsFirst.suffix.trans reads.suffix_first

/-- What is behind the document type is the end of the document, unless entities were put in
place. -/
theorem ReadsProlog.suffix_third (reads : ReadsProlog size cs first second doctype third rest)
    (noParameters : doctype.parameters = []) : third <:+ cs :=
  (suffix_of_readDoctype reads.declaresType noParameters).trans reads.suffix_second

theorem suffix_of_readProlog (read : readProlog size cs = some (doctype, rest))
    (noParameters : doctype.parameters = []) : rest <:+ cs := by
  obtain ⟨first, second, third, reads⟩ := readProlog_eq_some_iff.mp read
  exact reads.skipsSecond.suffix.trans (reads.suffix_third noParameters)

end Prolog

/-- Reads a document from its root element on. -/
def readRoot (use : EntityUse) (doctype : Doctype) (whole cs : List Char) : Option Node := do
  if !beginsElement cs then none
  let (scan, rest) ← Scan.content use (doctype.entities.stepsFor whole) doctype.entities
    { allowance := allowanceFor whole.length } cs
  if scan.depth != 0 || !(← skipAside (whole.length + 1) rest).isEmpty then none
  ofEvents? scan.events.reverse

theorem ofChars?_eq (use : EntityUse) (cs : List Char) :
    ofChars? use cs = (readProlog cs.length cs).bind
      fun (doctype, rest) => readRoot use doctype cs rest := by
  simp only [ofChars?, readProlog, readRoot, Option.bind_eq_bind, Option.bind_assoc]
  rfl

section Root

variable {use : EntityUse} {doctype : Doctype} {whole : List Char} {root : Node}

/-- What the content of a document is when it is read from its root element on. -/
structure ReadsRoot (use : EntityUse) (doctype : Doctype) (whole cs : List Char) (scan : Scan)
    (left : List Char) : Prop where
  begins : beginsElement cs = true
  reads : Scan.Reads use (doctype.entities.stepsFor whole) doctype.entities
    { allowance := allowanceFor whole.length } cs scan left
  closed : scan.depth = 0
  skips : SkipsAside (whole.length + 1) left []

theorem readRoot_eq_some_iff : readRoot use doctype whole cs = some root ↔
    ∃ scan left, ReadsRoot use doctype whole cs scan left ∧
      ofEvents? scan.events.reverse = some root := by
  constructor
  · intro read
    unfold readRoot at read
    split at read
    · cases read
    · next begins =>
        obtain ⟨⟨scan, left⟩, reads, read⟩ := Option.bind_eq_some_iff.mp read
        obtain ⟨after, skips, read⟩ := Option.bind_eq_some_iff.mp read
        dsimp only at read
        split at read
        · cases read
        · next ends =>
          simp only [Bool.or_eq_true, bne_iff_ne, Bool.not_eq_true', not_or, ne_eq, not_not,
            Bool.not_eq_false, List.isEmpty_iff] at begins ends
          obtain ⟨closed, rfl⟩ := ends
          exact ⟨scan, left, ⟨begins, Scan.reads_of_content reads, closed,
            skipAside_eq_some_iff.mp skips⟩, read⟩
  · rintro ⟨scan, left, readsRoot, built⟩
    have reads := Scan.content_of_reads readsRoot.reads
    have skips := skipAside_eq_some_iff.mpr readsRoot.skips
    simp [readRoot, readsRoot.begins, reads, skips, readsRoot.closed, built]
end Root

end Stencil.Xml.Node
