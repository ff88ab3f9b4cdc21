import Stencil.Proofs.Stamping.Prolog

/-!
# Stamped documents

A document that has its tokens in its texts is read when it is stamped with a watermark that is no
markup: its tree stays what it was, with the watermark in the place of the tokens of its texts.
-/

namespace Stencil.Watermark

open Xml

/-- Tells that the tokens of a document are found in the texts of its tree: those hold as many as
the whole document, and its entities bring none. -/
structure InTexts (cs : List Char) (doctype : Doctype) (root : Node) : Prop where
  entities : IsFree doctype.entities
  parameters : IsFree doctype.parameters
  tokens_le : tokens cs ≤ tokensAmong root.texts

/-- Tells that a watermark is plain text for a document: it brings no markup, and it makes no end
of a section in a text.  The other two facts are about the reader and not about the document:
what it allows for entities, and the steps it takes for parameters, are measured by the length
of the whole text.  Both are void where nothing is declared, and hold when the watermark is not
shorter than the token. -/
structure IsPlainFor (watermark cs : List Char) (doctype : Doctype) (root : Node) : Prop where
  inert : ∀ c ∈ watermark, Scan.isPlain c = true
  fits : ∀ content ∈ root.texts, tokens content ≠ 0 →
    ¬sectionEnd <:+: stampText watermark content
  /-- The allowance for entities does not fall, or none are declared. -/
  room : doctype.entities.HasRoom (Node.allowanceFor cs.length)
    (Node.allowanceFor (stampText watermark cs).length)
  /-- The text does not become shorter, or no parameters are declared. -/
  keeps : KeepsLength watermark doctype.parameters

variable {watermark cs rest left : List Char} {use : EntityUse} {doctype : Doctype} {root : Node}
  {scan : Scan}

theorem texts_of_events (built : Node.ofEvents? scan.events.reverse = some root) :
    root.texts = (scan.events.filterMap Event.text?).reverse := by
  have texts_eq := Node.texts_build built
  rwa [List.reverse_nil, List.flatMap_nil, List.nil_append, List.filterMap_reverse] at texts_eq

theorem tokensIn_of_events (built : Node.ofEvents? scan.events.reverse = some root) :
    tokensAmong root.texts = tokensIn scan.events := by
  rw [texts_of_events built, tokensAmong_reverse, tokensIn]

theorem IsPlainFor.fitsIn (plain : IsPlainFor watermark cs doctype root)
    (built : Node.ofEvents? scan.events.reverse = some root) : FitsIn watermark scan.events := by
  intro event eventMem content isText
  refine plain.fits content ?_
  rw [texts_of_events built, List.mem_reverse]
  exact List.mem_filterMap.mpr ⟨event, eventMem, isText⟩

/-- When texts have all tokens of a document, the root element has them all, and nothing stands
behind it. -/
theorem tokens_of_root (inTexts : InTexts cs doctype root)
    (prolog : Node.readProlog cs.length cs = some (doctype, rest))
    (readsRoot : Node.ReadsRoot use doctype cs rest scan left)
    (built : Node.ofEvents? scan.events.reverse = some root) :
    tokens cs = tokens rest ∧ tokens rest = tokensIn scan.events ∧ tokens left = 0 := by
  have all := inTexts.tokens_le
  rw [tokensIn_of_events built] at all
  have inFront := tokens_le_of_readProlog prolog inTexts.parameters
  have grows := (reads_grows readsRoot.reads inTexts.entities).tokens_le
  have none : tokensIn ({ allowance := Node.allowanceFor cs.length } : Scan).events = 0 := rfl
  omega

/-- There is fuel for a stamped root element. -/
theorem hasFuel_of_root (keeps : KeepsLength watermark doctype.parameters)
    (prolog : Node.readProlog cs.length cs = some (doctype, rest))
    (whole : tokens cs = tokens rest) :
    HasFuel (stepsIn doctype.entities (stampText watermark rest)) (doctype.entities.stepsFor cs)
        (doctype.entities.stepsFor (stampText watermark cs)) ∧
      ∀ behind, behind <:+ stampText watermark rest →
        HasFuel behind.length (cs.length + 1) ((stampText watermark cs).length + 1) := by
  rcases keeps with noParameters | long
  · have suffix := Node.suffix_of_readProlog prolog noParameters
    have shorter := length_stampText_le_of_suffix watermark suffix whole.le
    refine ⟨.inr ?_, fun behind isSuffix => .inr ?_⟩
    · exact lt_of_le_of_lt (Nat.add_le_add_right shorter _) (Entities.lt_stepsFor _ _)
    · exact Nat.lt_succ_of_le (isSuffix.length_le.trans shorter)
  · have longer := length_le_stampText long cs
    exact ⟨.inl (Entities.stepsFor_le_stepsFor _ longer), fun _ _ => .inl (Nat.succ_le_succ longer)⟩

/-- The root element is read alike when the document is stamped. -/
theorem readsRoot_stamped (inTexts : InTexts cs doctype root)
    (plain : IsPlainFor watermark cs doctype root)
    (prolog : Node.readProlog cs.length cs = some (doctype, rest))
    (readsRoot : Node.ReadsRoot use doctype cs rest scan left)
    (built : Node.ofEvents? scan.events.reverse = some root) :
    ∃ scan', Node.ReadsRoot use doctype (stampText watermark cs) (stampText watermark rest) scan'
        left ∧ Retexted (stampText watermark) scan.events scan'.events := by
  obtain ⟨whole, inRoot, behind⟩ := tokens_of_root inTexts prolog readsRoot built
  obtain ⟨enough, enoughBehind⟩ := hasFuel_of_root plain.keeps prolog whole
  obtain ⟨c, others, rest_eq, stamped, start⟩ := beginsElement_stamped watermark readsRoot.begins
  have begins : Node.beginsElement (stampText watermark rest) = true := by
    rw [stamped]
    exact start
  have follows : Follows watermark doctype.entities
      { allowance := Node.allowanceFor cs.length }
      { allowance := Node.allowanceFor (stampText watermark cs).length } :=
    ⟨.nil, rfl, plain.room⟩
  have all : tokensIn [] + tokens rest ≤ tokensIn scan.events + tokens left := by
    rw [inRoot, behind]
    exact (Nat.zero_add _).le
  obtain ⟨scan', reads', followsLast⟩ := reads_stamped plain.inert readsRoot.reads inTexts.entities
    all (plain.fitsIn built) follows enough
  have skips' := skipsAside_stamped readsRoot.skips behind.le (by decide) Node.isBody_nil
    (enoughBehind _ reads'.suffix)
  rw [stampText_of_tokens_eq_zero watermark behind] at reads' skips'
  exact ⟨scan', ⟨begins, reads', followsLast.depth_eq.trans readsRoot.closed, skips'⟩,
    followsLast.events⟩

/-- A document that is stamped has the tree of the document, with its texts stamped. -/
theorem ofChars?_stamped (read : Node.ofChars? use cs = some root)
    (prolog : Node.readProlog cs.length cs = some (doctype, rest))
    (inTexts : InTexts cs doctype root) (plain : IsPlainFor watermark cs doctype root) :
    ∃ root', Node.ofChars? use (stampText watermark cs) = some root' ∧
      root'.withTexts id = root.withTexts (stampText watermark) := by
  rw [Node.ofChars?_eq, prolog, Option.bind_some, Node.readRoot_eq_some_iff] at read
  obtain ⟨scan, left, readsRoot, built⟩ := read
  obtain ⟨whole, _, _⟩ := tokens_of_root inTexts prolog readsRoot built
  have prolog' := readProlog_stamped prolog readsRoot.begins whole.le inTexts.parameters plain.keeps
  obtain ⟨scan', readsRoot', retexted⟩ := readsRoot_stamped inTexts plain prolog readsRoot built
  obtain ⟨root', built', same⟩ := Node.build_retexted built retexted.reverse .nil
  refine ⟨root', ?_, same⟩
  rw [Node.ofChars?_eq, prolog', Option.bind_some, Node.readRoot_eq_some_iff]
  exact ⟨scan', left, readsRoot', built'⟩

/-- The start tag of the root element ends in front of all tokens. -/
theorem bracket_of_readsRoot (readsRoot : Node.ReadsRoot use doctype cs rest scan left)
    (free : IsFree doctype.entities) (inRoot : tokens rest = tokensIn scan.events) :
    HasBracket rest rest := by
  obtain ⟨c, others, rfl, _, start⟩ := beginsElement_stamped [] readsRoot.begins
  obtain ⟨less, next, behind, readsTag, readsBehind⟩ := readsRoot.reads.behind_markup
  obtain ⟨⟨front, back, others_eq, suffix⟩, events, noText, events_eq⟩ :=
    Scan.bracket_of_readMarkup readsTag rfl start
  have inTag : tokensIn next.events = 0 := by
    rw [events_eq, List.append_nil]
    exact tokensIn_of_noText noText
  refine ⟨'<' :: front, back, by rw [others_eq, List.cons_append], ?_⟩
  rw [inRoot]
  rcases readsBehind with ⟨rfl, _⟩ | readsBehind
  · rw [inTag]
    exact Nat.zero_le _
  · have grows := (reads_grows readsBehind free).tokens_le
    have fewer := tokens_le_of_suffix suffix
    omega

/-- In every document a bracket stands in front of all tokens that are found in its texts. -/
theorem bracket_of_read (read : Node.ofChars? use cs = some root)
    (prolog : Node.readProlog cs.length cs = some (doctype, rest))
    (inTexts : InTexts cs doctype root) : HasBracket cs cs := by
  rw [Node.ofChars?_eq, prolog, Option.bind_some, Node.readRoot_eq_some_iff] at read
  obtain ⟨scan, left, readsRoot, built⟩ := read
  obtain ⟨whole, inRoot, _⟩ := tokens_of_root inTexts prolog readsRoot built
  have bracket : HasBracket cs rest := by
    rcases bracket_of_readProlog prolog inTexts.parameters with suffix | bracket
    · exact (bracket_of_readsRoot readsRoot inTexts.entities inRoot).of_suffix suffix
    · exact bracket
  exact bracket.of_le whole.le

end Stencil.Watermark
