import Stencil.Proofs.Stamping.Content
import Stencil.Proofs.Xml.Prolog

/-!
# What is in front of stamped content

In front of the root element of a document there are a declaration, comments, instructions and
declarations of entities.  When no token stands there, it is all read alike in the stamped text.
-/

namespace Stencil.Watermark

open Xml

variable {watermark : List Char} {fuel fuel' : Nat} {cs rest : List Char}

/-- A text begins alike when it is stamped, if it begins with something else than a brace. -/
theorem alike_stampText (watermark : List Char) {c : Char} (head_eq : cs.head? = some c)
    (other : c ≠ '\x7b') (noSpace : isSpace c = false) :
    Alike cs (stampText watermark cs) := by
  obtain ⟨others, rfl⟩ := List.head?_eq_some_iff.mp head_eq
  have marked : IsMarked [c] := ⟨c, List.mem_singleton_self c, noSpace⟩
  rw [stampText_cons_of_ne watermark other]
  exact alike_append marked _ _

theorem takesOff_stampText {γ : Type} {reader : List Char → Option γ} {result : List Char → γ}
    (takes : TakesOff reader result cs rest) (none : tokens cs ≤ tokens rest)
    (alike : Alike rest (stampText watermark rest)) :
    reader (stampText watermark cs) = some (result (stampText watermark rest)) := by
  obtain ⟨taken, rfl, reads⟩ := takes
  rw [stampText_append_of_tokens_le watermark none]
  exact reads _ alike

theorem tokens_skipSpace (cs : List Char) : tokens (skipSpace cs) = tokens cs := by
  obtain ⟨spaces, cs_eq, isRun⟩ := exists_spaces cs
  have noBrace : '\x7b' ∉ spaces := fun braceMem => absurd (isRun.all _ braceMem) (by decide)
  conv_rhs => rw [cs_eq, tokens_append_of_notMem noBrace]

/-- White space is skipped up to what follows it, when that is no token. -/
theorem skipSpace_stampText (watermark : List Char) (other : ¬token <+: skipSpace cs) :
    skipSpace (stampText watermark cs) = stampText watermark (skipSpace cs) := by
  obtain ⟨spaces, cs_eq, isRun⟩ := exists_spaces cs
  have noBrace : '\x7b' ∉ spaces := fun braceMem => absurd (isRun.all _ braceMem) (by decide)
  conv_lhs => rw [cs_eq, stampText_append_of_notMem watermark noBrace]
  exact skipSpace_append (isRun.of_head?_eq (head?_stampText other))

theorem length_skipSpace_le (cs : List Char) : (skipSpace cs).length ≤ cs.length :=
  (List.dropWhile_suffix _).length_le

section Subset

variable {doctype next last : Doctype} {left : List Char}

theorem IsFree.of_prefix {entities others : Entities} (free : IsFree others)
    (isPrefix : entities <+: others) : IsFree entities := by
  obtain ⟨added, rfl⟩ := isPrefix
  intro name text held
  refine free name text ?_
  rw [List.lookup_append, held, Option.some_or]

theorem blank_boundary (rest : List Char) : ∀ x ∈ (' ' :: rest).head?, x ∉ token := by
  intro x xMem
  obtain rfl : ' ' = x := Option.some.inj xMem
  decide

theorem tokens_inPlace (free : IsFree doctype.parameters) (name rest : List Char) :
    tokens (doctype.inPlace name rest) = tokens rest := by
  unfold Doctype.inPlace
  split
  · next text held =>
      rw [List.cons_append, tokens_cons_of_ne (by decide), tokens_append (blank_boundary rest),
        free name text held, Nat.zero_add, tokens_cons_of_ne (by decide)]
  · rfl

theorem stampText_inPlace (watermark : List Char) (free : IsFree doctype.parameters)
    (name rest : List Char) :
    stampText watermark (doctype.inPlace name rest) =
      doctype.inPlace name (stampText watermark rest) := by
  unfold Doctype.inPlace
  split
  · next text held =>
      rw [List.cons_append, stampText_cons_of_ne watermark (by decide),
        stampText_append (blank_boundary rest),
        stampText_of_tokens_eq_zero watermark (free name text held),
        stampText_cons_of_ne watermark (by decide), List.cons_append]
  · rfl

/-- Behind white space and a character that begins no token. -/
theorem skipSpace_stampText_cons (watermark : List Char) {c : Char} {behind : List Char}
    (next_eq : skipSpace cs = c :: behind) (other : c ≠ '\x7b') :
    skipSpace (stampText watermark cs) = c :: stampText watermark behind ∧
      tokens cs = tokens behind ∧
      (stampText watermark behind).length < (stampText watermark cs).length := by
  have other' : ¬token <+: skipSpace cs := next_eq ▸ not_token_prefix_cons other behind
  have skips := skipSpace_stampText watermark other'
  rw [next_eq, stampText_cons_of_ne watermark other] at skips
  refine ⟨skips, ?_, ?_⟩
  · rw [← tokens_skipSpace, next_eq, tokens_cons_of_ne other]
  · have shorter := length_skipSpace_le (stampText watermark cs)
    rw [skips, List.length_cons] at shorter
    omega

theorem tokens_le_of_readsSubset (reads : Doctype.ReadsSubset fuel doctype cs last left)
    (free : IsFree last.parameters) : tokens left ≤ tokens cs := by
  induction reads with
  | closed next_eq =>
      rw [(skipSpace_stampText_cons [] next_eq (by decide)).2.1]
  | @parameter fuel doctype last cs behind name rest left next_eq reads readsRest ih =>
      obtain ⟨taken, _, rfl, _⟩ := Doctype.readParameter_cutsOff reads
      -- the text of the parameter adds no tokens
      have later := ih free
      rw [tokens_inPlace (free.of_prefix readsRest.parameters)] at later
      rw [(skipSpace_stampText_cons [] next_eq (by decide)).2.1]
      exact later.trans (tokens_le_append taken rest)
  | @declaration fuel doctype next last cs behind rest left next_eq reads _ ih =>
      obtain ⟨taken, _, rfl, _⟩ := Doctype.readDeclaration_cutsOff reads
      rw [(skipSpace_stampText_cons [] next_eq (by decide)).2.1]
      exact (ih free).trans (tokens_le_append taken rest)

/-- Declarations without tokens are read alike when the text is stamped. -/
theorem readsSubset_stamped (reads : Doctype.ReadsSubset fuel doctype cs last left)
    (free : IsFree last.parameters) (none : tokens cs ≤ tokens left)
    (keeps : last.parameters = [] ∨ fuel ≤ fuel')
    (enough : HasFuel (stampText watermark cs).length fuel fuel') :
    Doctype.ReadsSubset fuel' doctype (stampText watermark cs) last (stampText watermark left) := by
  induction reads generalizing fuel' with
  | closed next_eq =>
      obtain ⟨less, rfl, _, _⟩ := enough.step
      exact .closed (skipSpace_stampText_cons watermark next_eq (by decide)).1
  | @parameter fuel doctype last cs behind name rest left next_eq reads readsRest ih =>
      have cuts := Doctype.readParameter_cutsOff reads
      have freeHere := free.of_prefix readsRest.parameters
      have fewer := tokens_le_of_readsSubset readsRest free
      rw [tokens_inPlace freeHere] at fewer ih
      have inFront := tokens_le_of_cutsOff cuts
      obtain ⟨next_eq', same, shorter⟩ := skipSpace_stampText_cons watermark next_eq (by decide)
      obtain ⟨reads', shorter'⟩ := cutsOff_stampText watermark cuts (by omega)
      obtain ⟨less, rfl, _, later⟩ := enough.step
      -- what is put in the place of the parameter makes the text longer
      have enoughRest :
          HasFuel (stampText watermark (doctype.inPlace name rest)).length fuel less := by
        rcases keeps with noParameters | more
        · have noneHere : doctype.parameters = [] :=
            List.prefix_nil.mp (noParameters ▸ readsRest.parameters)
          rw [Doctype.inPlace_of_nil noneHere]
          exact later _ (by omega)
        · exact .inl (Nat.le_of_succ_le_succ more)
      refine .parameter next_eq' reads' ?_
      rw [← stampText_inPlace watermark freeHere]
      exact ih free (by omega) (keeps.imp_right Nat.le_of_succ_le_succ) enoughRest
  | @declaration fuel doctype next last cs behind rest left next_eq reads readsRest ih =>
      obtain ⟨taken, marked, rfl, readsAll⟩ := Doctype.readDeclaration_cutsOff reads
      have fewer := tokens_le_of_readsSubset readsRest free
      have inFront := tokens_le_append taken rest
      obtain ⟨next_eq', same, shorter⟩ := skipSpace_stampText_cons watermark next_eq (by decide)
      rw [stampText_append_of_tokens_le watermark (by omega)] at next_eq' shorter
      have positive := List.length_pos_iff.mpr marked.ne_nil
      rw [List.length_append] at shorter
      obtain ⟨less, rfl, least, later⟩ := enough.step
      exact .declaration next_eq' (readsAll less (by omega) _)
        (ih free (by omega) (keeps.imp_right Nat.le_of_succ_le_succ) (later _ (by omega)))

end Subset

section Doctype

variable {doctype : Doctype}

/-- Stamping makes no text shorter, or there is nothing that needs its length. -/
def KeepsLength (watermark : List Char) (entities : Entities) : Prop :=
  entities = [] ∨ token.length ≤ watermark.length

theorem length_le_stampText (long : token.length ≤ watermark.length) (cs : List Char) :
    cs.length ≤ (stampText watermark cs).length := by
  induction cs using Text.pattern_induction token_ne_nil with
  | nil => exact le_rfl
  | found rest ih =>
      rw [stampText_token_append, List.length_append, List.length_append]
      exact Nat.add_le_add long ih
  | kept x rest other ih =>
      rw [stampText_cons_of_elsewhere watermark other]
      exact Nat.succ_le_succ ih

theorem tokens_le_of_readDeclarations
    (read : Doctype.readDeclarations cs = some (doctype, rest)) (free : IsFree doctype.parameters) :
    tokens rest ≤ tokens cs := by
  unfold Doctype.readDeclarations at read
  split at read
  · next behind =>
      rw [tokens_cons_of_ne (by decide)]
      exact tokens_le_of_readsSubset (Doctype.readSubset_eq_some_iff.mp read) free
  · cases read
    exact le_rfl

theorem readDeclarations_stamped (read : Doctype.readDeclarations cs = some (doctype, rest))
    {c : Char} (head_eq : cs.head? = some c) (other : c ≠ '\x7b')
    (free : IsFree doctype.parameters) (keeps : KeepsLength watermark doctype.parameters)
    (none : tokens cs ≤ tokens rest) :
    Doctype.readDeclarations (stampText watermark cs) =
      some (doctype, stampText watermark rest) := by
  unfold Doctype.readDeclarations at read
  split at read
  · next behind =>
      rw [tokens_cons_of_ne (by decide)] at none
      rw [stampText_cons_of_ne watermark (by decide), Doctype.readDeclarations,
        Doctype.readSubset_eq_some_iff]
      have keepsFuel : doctype.parameters = [] ∨
          2 * behind.length + 2 ≤ 2 * (stampText watermark behind).length + 2 :=
        keeps.imp_right fun long => by
          have longer := length_le_stampText long behind
          omega
      exact readsSubset_stamped (Doctype.readSubset_eq_some_iff.mp read) free none keepsFuel
        (.inr (by omega))
  · next noBracket =>
      cases read
      obtain ⟨others, rfl⟩ := List.head?_eq_some_iff.mp head_eq
      rw [stampText_cons_of_ne watermark other, Doctype.readDeclarations]
      rintro behind same
      obtain ⟨rfl, _⟩ := List.cons.inj same
      exact noBracket others rfl

theorem tokens_le_of_suffix (suffix : rest <:+ cs) : tokens rest ≤ tokens cs := by
  obtain ⟨taken, rfl⟩ := suffix
  exact tokens_le_append taken rest

theorem tokens_le_of_readDoctype (read : Doctype.read cs = some (doctype, rest))
    (free : IsFree doctype.parameters) : tokens rest ≤ tokens cs := by
  obtain ⟨opened, middle, _, _, _, opens, readsInner, ends⟩ := Doctype.exists_of_read read
  exact (tokens_le_of_suffix ends.takesOff.suffix).trans
    ((tokens_le_of_readDeclarations readsInner free).trans (tokens_le_of_suffix opens.suffix))

/-- A document type declaration without tokens is read alike when the text is stamped. -/
theorem readDoctype_stamped (read : Doctype.read cs = some (doctype, rest))
    (free : IsFree doctype.parameters) (keeps : KeepsLength watermark doctype.parameters)
    (none : tokens cs ≤ tokens rest) :
    Doctype.read (stampText watermark cs) = some (doctype, stampText watermark rest) := by
  obtain ⟨opened, middle, c, head_eq, bracket, opens, readsInner, ends⟩ :=
    Doctype.exists_of_read read
  have fewerOpened := tokens_le_of_suffix opens.suffix
  have fewerInner := tokens_le_of_readDeclarations readsInner free
  have fewerEnd := tokens_le_of_suffix ends.takesOff.suffix
  have other : c ≠ '\x7b' := by rcases bracket with rfl | rfl <;> decide
  have noSpace : isSpace c = false := by rcases bracket with rfl | rfl <;> decide
  have opens' := takesOff_stampText opens (by omega)
    (alike_stampText watermark head_eq other noSpace)
  have readsInner' := readDeclarations_stamped readsInner head_eq other free keeps (by omega)
  have ends' := (cutsOff_stampText watermark ends (by omega)).1
  simp only [id] at opens' ends'
  rw [Doctype.read_eq, opens', Option.bind_some, readsInner', Option.bind_some]
  dsimp only
  rw [ends', Option.map_some]

end Doctype

section Aside

variable {doctype : Doctype}

theorem tokens_le_of_skipsAside (skips : Node.SkipsAside fuel cs rest) : tokens rest ≤ tokens cs :=
  tokens_le_of_suffix skips.suffix

/-- What lies aside without tokens is skipped alike when the text is stamped. -/
theorem skipsAside_stamped (skips : Node.SkipsAside fuel cs rest) (none : tokens cs ≤ tokens rest)
    (other : ¬token <+: rest) (body : Node.IsBody (stampText watermark rest))
    (enough : HasFuel (stampText watermark cs).length fuel fuel') :
    Node.SkipsAside fuel' (stampText watermark cs) (stampText watermark rest) := by
  induction skips generalizing fuel' with
  | @done fuel cs =>
      obtain ⟨less, rfl, _, _⟩ := enough.step
      rw [← skipSpace_stampText watermark other] at body ⊢
      exact .done body
  | @instruction fuel cs behind rest left next_eq skipsFirst skipsRest ih =>
      obtain ⟨less, rfl, _, later⟩ := enough.step
      have cuts := skipInstruction_cutsOff skipsFirst
      have fewerHere := tokens_le_of_suffix cuts.takesOff.suffix
      have fewer := tokens_le_of_skipsAside skipsRest
      obtain ⟨next_eq', same, shorter⟩ := skipSpace_stampText_cons watermark next_eq (by decide)
      rw [tokens_cons_of_ne (by decide)] at same
      rw [stampText_cons_of_ne watermark (by decide)] at next_eq' shorter
      obtain ⟨skipsFirst', shorter'⟩ := cutsOff_stampText watermark cuts (by omega)
      rw [List.length_cons] at shorter
      exact .instruction next_eq' skipsFirst' (ih (by omega) other body (later _ (by omega)))
  | @comment fuel cs behind rest left next_eq skipsFirst skipsRest ih =>
      obtain ⟨less, rfl, _, later⟩ := enough.step
      have cuts := skipComment_cutsOff skipsFirst
      have fewerHere := tokens_le_of_suffix cuts.takesOff.suffix
      have fewer := tokens_le_of_skipsAside skipsRest
      obtain ⟨next_eq', same, shorter⟩ := skipSpace_stampText_cons watermark next_eq (by decide)
      -- past the mark that opens the comment
      rw [tokens_cons_of_ne (by decide), tokens_cons_of_ne (by decide),
        tokens_cons_of_ne (by decide)] at same
      rw [stampText_cons_of_ne watermark (by decide), stampText_cons_of_ne watermark (by decide),
        stampText_cons_of_ne watermark (by decide)] at next_eq' shorter
      obtain ⟨skipsFirst', shorter'⟩ := cutsOff_stampText watermark cuts (by omega)
      simp only [List.length_cons] at shorter
      exact .comment next_eq' skipsFirst' (ih (by omega) other body (later _ (by omega)))

end Aside

section Prolog

variable {doctype : Doctype} {left : List Char}

/-- A start tag begins a body, which begins alike when it is stamped. -/
theorem beginsElement_stamped (watermark : List Char) (begins : Node.beginsElement cs = true) :
    ∃ c behind, cs = '<' :: c :: behind ∧
      stampText watermark cs = '<' :: c :: stampText watermark behind ∧ isNameStart c = true := by
  unfold Node.beginsElement at begins
  split at begins
  · next c behind =>
      have other : c ≠ '\x7b' := by
        rintro rfl
        exact absurd begins (by decide)
      refine ⟨c, behind, rfl, ?_, begins⟩
      rw [stampText_cons_of_ne watermark (by decide), stampText_cons_of_ne watermark other]
  · cases begins

theorem length_stampText_le_of_suffix (watermark : List Char) (suffix : rest <:+ cs)
    (none : tokens cs ≤ tokens rest) :
    (stampText watermark rest).length ≤ (stampText watermark cs).length := by
  obtain ⟨taken, rfl⟩ := suffix
  rw [stampText_append_of_tokens_le watermark none, List.length_append]
  exact Nat.le_add_left _ _

/-- What is read as a declaration, or as none, is read alike when the text is stamped. -/
theorem declaration_stamped {declaration : Declaration}
    (read : Declaration.read cs = some (declaration, rest)) (none : tokens cs ≤ tokens rest)
    (skips : Node.SkipsAside fuel' (stampText watermark rest) left) :
    Declaration.read (stampText watermark cs) = some (declaration, stampText watermark rest) := by
  -- where there was no declaration, none comes to stand
  have undeclared := skips.declaration
  unfold Declaration.read at read
  split at read
  · next behind opens =>
      rw [afterWord_eq_some_iff] at opens
      split at read
      · next spaced =>
          obtain ⟨taken, marked, rfl, reads⟩ := Declaration.readItems_cutsOff read
          rw [opens, tokens_append_of_notMem (by decide)] at none
          rw [opens, stampText_append_of_notMem watermark (by decide),
            stampText_append_of_tokens_le watermark none, Declaration.read, afterWord_append]
          rw [← (alike_append marked rest (stampText watermark rest)).head_eq] at spaced
          dsimp only
          rw [if_pos spaced, reads]
      · cases read
        exact undeclared
  · cases read
    exact undeclared

theorem tokens_le_of_placeOfDoctype (read : Node.readDoctype cs = some (doctype, rest))
    (free : IsFree doctype.parameters) : tokens rest ≤ tokens cs := by
  unfold Node.readDoctype at read
  split at read
  · next behind opens =>
      rw [afterWord_eq_some_iff.mp opens, tokens_append_of_notMem (by decide)]
      exact tokens_le_of_readDoctype read free
  · cases read
    exact le_rfl

/-- A document type declaration, or what follows its place, is read alike. -/
theorem placeOfDoctype_stamped {middle : List Char} (body : Node.IsBody cs)
    (read : Node.readDoctype cs = some (doctype, middle)) (skips : Node.SkipsAside fuel middle rest)
    (begins : Node.beginsElement rest = true) (none : tokens cs ≤ tokens middle)
    (free : IsFree doctype.parameters) (keeps : KeepsLength watermark doctype.parameters) :
    Node.IsBody (stampText watermark cs) ∧ ¬token <+: cs ∧
      Node.readDoctype (stampText watermark cs) = some (doctype, stampText watermark middle) := by
  unfold Node.readDoctype at read
  split at read
  · next behind opens =>
      rw [afterWord_eq_some_iff] at opens
      have stamped : stampText watermark cs = "<!DOCTYPE".toList ++ stampText watermark behind := by
        rw [opens, stampText_append_of_notMem watermark (by decide)]
      rw [opens, tokens_append_of_notMem (by decide)] at none
      refine ⟨?_, ?_, ?_⟩
      · rw [stamped]
        exact Node.isBody_doctype _
      · rw [opens]
        exact not_token_prefix_cons (by decide) _
      · rw [stamped, Node.readDoctype, afterWord_append]
        exact readDoctype_stamped read free keeps none
  · next unopened =>
      cases read
      -- without a declaration, the root element follows at once
      obtain rfl := skips.eq_of_isBody body
      obtain ⟨c, behind, cs_eq, stamped, start⟩ := beginsElement_stamped watermark begins
      refine ⟨?_, ?_, ?_⟩
      · rw [stamped]
        exact Node.isBody_of_isNameStart start _
      · rw [cs_eq]
        exact not_token_prefix_cons (by decide) _
      · rw [stamped, Node.readDoctype_of_isNameStart start]

section Parts

variable {size : Nat} {first second third : List Char}

theorem tokens_of_readsProlog
    (reads : Node.ReadsProlog size cs first second doctype third rest)
    (free : IsFree doctype.parameters) :
    tokens first ≤ tokens cs ∧ tokens second ≤ tokens first ∧ tokens third ≤ tokens second ∧
      tokens rest ≤ tokens third :=
  ⟨tokens_le_of_suffix reads.suffix_first, tokens_le_of_skipsAside reads.skipsFirst,
    tokens_le_of_placeOfDoctype reads.declaresType free, tokens_le_of_skipsAside reads.skipsSecond⟩

/-- There is fuel for what lies aside in front of a stamped root element. -/
theorem hasFuel_of_readsProlog
    (reads : Node.ReadsProlog cs.length cs first second doctype third rest)
    (none : tokens cs ≤ tokens third) (keeps : KeepsLength watermark doctype.parameters) :
    HasFuel (stampText watermark third).length (cs.length + 1)
      ((stampText watermark cs).length + 1) := by
  rcases keeps with noParameters | long
  · have shorter := length_stampText_le_of_suffix watermark (reads.suffix_third noParameters) none
    exact .inr (Nat.lt_succ_of_le shorter)
  · exact .inl (Nat.succ_le_succ (length_le_stampText long cs))

end Parts

/-- What is in front of the root element is read alike when the text is stamped. -/
theorem readProlog_stamped (read : Node.readProlog cs.length cs = some (doctype, rest))
    (begins : Node.beginsElement rest = true) (none : tokens cs ≤ tokens rest)
    (free : IsFree doctype.parameters) (keeps : KeepsLength watermark doctype.parameters) :
    Node.readProlog (stampText watermark cs).length (stampText watermark cs) =
      some (doctype, stampText watermark rest) := by
  obtain ⟨first, second, third, reads⟩ := Node.readProlog_eq_some_iff.mp read
  obtain ⟨fewerFirst, fewerSecond, fewerThird, fewerRest⟩ := tokens_of_readsProlog reads free
  -- the root element begins alike
  obtain ⟨c, behind, rest_eq, stamped, start⟩ := beginsElement_stamped watermark begins
  have bodyRest : Node.IsBody (stampText watermark rest) := by
    rw [stamped]
    exact Node.isBody_of_isNameStart start _
  have otherRest : ¬token <+: rest := by
    rw [rest_eq]
    exact not_token_prefix_cons (by decide) _
  obtain ⟨bodySecond, otherSecond, declaresType⟩ := placeOfDoctype_stamped reads.skipsFirst.isBody
    reads.declaresType reads.skipsSecond begins (by omega) free keeps
  have shorterFirst := length_stampText_le_of_suffix watermark reads.suffix_first (by omega)
  have skipsFirst : Node.SkipsAside ((stampText watermark cs).length + 1)
      (stampText watermark first) (stampText watermark second) :=
    skipsAside_stamped reads.skipsFirst (by omega) otherSecond bodySecond
      (.inr (Nat.lt_succ_of_le shorterFirst))
  have skipsSecond : Node.SkipsAside ((stampText watermark cs).length + 1)
      (stampText watermark third) (stampText watermark rest) :=
    skipsAside_stamped reads.skipsSecond (by omega) otherRest bodyRest
      (hasFuel_of_readsProlog reads (by omega) keeps)
  obtain ⟨declaration, declares⟩ := reads.declares
  have declares' := declaration_stamped declares (by omega) skipsFirst
  rw [Node.readProlog_eq_some_iff]
  exact ⟨_, _, _, ⟨declaration, declares'⟩, skipsFirst, declaresType, skipsSecond⟩

theorem tokens_le_of_readProlog {size : Nat} (read : Node.readProlog size cs = some (doctype, rest))
    (free : IsFree doctype.parameters) : tokens rest ≤ tokens cs := by
  obtain ⟨first, second, third, reads⟩ := Node.readProlog_eq_some_iff.mp read
  obtain ⟨fewerFirst, fewerSecond, fewerThird, fewerRest⟩ := tokens_of_readsProlog reads free
  omega

/-- A bracket that stands in front of as many tokens as a text has. -/
def HasBracket (cs rest : List Char) : Prop :=
  ∃ front back, cs = front ++ '>' :: back ∧ tokens rest ≤ tokens back

theorem HasBracket.of_suffix {middle : List Char} (bracket : HasBracket middle rest)
    (suffix : middle <:+ cs) : HasBracket cs rest := by
  obtain ⟨taken, rfl⟩ := suffix
  obtain ⟨front, back, rfl, fewer⟩ := bracket
  exact ⟨taken ++ front, back, (List.append_assoc ..).symm, fewer⟩

theorem HasBracket.of_le {middle : List Char} (bracket : HasBracket cs middle)
    (fewer : tokens rest ≤ tokens middle) : HasBracket cs rest := by
  obtain ⟨front, back, cs_eq, fewer'⟩ := bracket
  exact ⟨front, back, cs_eq, fewer.trans fewer'⟩

/-- A document type declaration has a bracket inside, or nothing is put in the place of any of
its parts. -/
theorem bracket_of_readDoctype (read : Doctype.read cs = some (doctype, rest))
    (free : IsFree doctype.parameters) : rest <:+ cs ∨ HasBracket cs rest := by
  by_cases noParameters : doctype.parameters = []
  · exact .inl (Doctype.suffix_of_read read noParameters)
  · obtain ⟨opened, middle, _, _, _, opens, readsInner, ends⟩ := Doctype.exists_of_read read
    unfold Doctype.readDeclarations at readsInner
    split at readsInner
    · next behind =>
        have reads := Doctype.readSubset_eq_some_iff.mp readsInner
        rcases reads.bracket rfl with none | ⟨_, front, back, next, inside, rfl, suffix, readsRest⟩
        · exact absurd none noParameters
        · have here : HasBracket (front ++ '>' :: back) rest :=
            ⟨front, back, rfl, (tokens_le_of_suffix ends.takesOff.suffix).trans
              ((tokens_le_of_readsSubset readsRest free).trans (tokens_le_of_suffix suffix))⟩
          exact .inr ((here.of_suffix (List.suffix_cons '[' _)).of_suffix opens.suffix)
    · cases readsInner
      exact absurd rfl noParameters

/-- What is behind the prolog is the end of the document, or a bracket stands in front of it. -/
theorem bracket_of_readProlog {size : Nat} (read : Node.readProlog size cs = some (doctype, rest))
    (free : IsFree doctype.parameters) : rest <:+ cs ∨ HasBracket cs rest := by
  obtain ⟨first, second, third, reads⟩ := Node.readProlog_eq_some_iff.mp read
  have skips := reads.skipsSecond
  have declares := reads.declaresType
  unfold Node.readDoctype at declares
  split at declares
  · next behind opens =>
      have suffixBehind : behind <:+ second :=
        (afterWord_eq_some_iff.mp opens) ▸ List.suffix_append _ _
      have suffix := suffixBehind.trans reads.suffix_second
      rcases bracket_of_readDoctype declares free with whole | bracket
      · exact .inl (skips.suffix.trans (whole.trans suffix))
      · exact .inr ((bracket.of_le (tokens_le_of_skipsAside skips)).of_suffix suffix)
  · cases declares
    exact .inl (skips.suffix.trans reads.suffix_second)

end Prolog

end Stencil.Watermark
