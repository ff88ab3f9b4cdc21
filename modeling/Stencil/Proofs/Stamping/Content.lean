import Stencil.Proofs.Stamping.Text
import Stencil.Proofs.Xml.Content

/-!
# Stamped content

When all tokens of a content stand in its texts, the stamped content is read like the content
itself: every step is the same one, on a text that is stamped, and only a text that becomes empty
is not there.
-/

namespace Stencil.Watermark

open Xml

/-- The number of tokens in some texts. -/
def tokensAmong : List (List Char) → Nat
  | [] => 0
  | text :: rest => tokens text + tokensAmong rest

/-- The number of tokens in the texts of events. -/
def tokensIn (events : List Event) : Nat :=
  tokensAmong (events.filterMap Event.text?)

/-- Tells that entities bring no tokens with them. -/
def IsFree (entities : Entities) : Prop :=
  ∀ name text, entities.lookup name = some (.internal text) → tokens text = 0

/-- Tells that a watermark writes no end of a section into the texts that have tokens. -/
def FitsIn (watermark : List Char) (events : List Event) : Prop :=
  ∀ event ∈ events, ∀ content ∈ event.text?, tokens content ≠ 0 →
    ¬sectionEnd <:+: stampText watermark content

/-- From a scan on, no events are lost and no tokens are gained. -/
structure Grows (scan : Scan) (cs : List Char) (next : Scan) (rest : List Char) : Prop where
  suffix : scan.events <:+ next.events
  tokens_le : tokensIn next.events + tokens rest ≤ tokensIn scan.events + tokens cs

/-- A scan of a stamped text that has come as far as a scan of the text itself. -/
structure Follows (watermark : List Char) (entities : Entities) (scan scan' : Scan) : Prop where
  events : Retexted (stampText watermark) scan.events scan'.events
  depth_eq : scan'.depth = scan.depth
  room : entities.HasRoom scan.allowance scan'.allowance

/-- There is as much fuel as there was, or more than a number of steps. -/
def HasFuel (steps fuel fuel' : Nat) : Prop :=
  fuel ≤ fuel' ∨ steps < fuel'

/-- The steps that a text and the texts of entities may take. -/
def stepsIn (entities : Entities) (cs : List Char) : Nat :=
  cs.length + entities.stepsBeside []

/-- What is read of a content is read of the stamped content as well, provided that all its
tokens are found in texts that fit. -/
def IsStampable (watermark : List Char) (use : EntityUse) (fuel : Nat) (entities : Entities)
    (scan : Scan) (cs : List Char) (last : Scan) (left : List Char) : Prop :=
  IsFree entities → tokensIn scan.events + tokens cs ≤ tokensIn last.events + tokens left →
    FitsIn watermark last.events → ∀ {fuel' : Nat} {scan' : Scan},
      Follows watermark entities scan scan' →
        HasFuel (stepsIn entities (stampText watermark cs)) fuel fuel' →
          ∃ last', Scan.Reads use fuel' entities scan' (stampText watermark cs) last'
            (stampText watermark left) ∧ Follows watermark entities last last'

variable {watermark : List Char} {use : EntityUse} {entities : Entities} {fuel fuel' : Nat}
  {scan scan' next last : Scan} {cs rest left : List Char}

section Tokens

theorem tokensAmong_append (texts others : List (List Char)) :
    tokensAmong (texts ++ others) = tokensAmong texts + tokensAmong others := by
  induction texts with
  | nil => exact (Nat.zero_add _).symm
  | cons text rest ih => rw [List.cons_append, tokensAmong, ih, tokensAmong, Nat.add_assoc]

theorem tokensAmong_reverse (texts : List (List Char)) :
    tokensAmong texts.reverse = tokensAmong texts := by
  induction texts with
  | nil => rfl
  | cons text rest ih =>
      rw [List.reverse_cons, tokensAmong_append, ih, tokensAmong, tokensAmong, tokensAmong,
        Nat.add_zero, Nat.add_comm]

theorem tokens_le_tokensAmong {text : List Char} {texts : List (List Char)}
    (textMem : text ∈ texts) : tokens text ≤ tokensAmong texts := by
  obtain ⟨before, behind, rfl⟩ := List.append_of_mem textMem
  rw [tokensAmong_append, tokensAmong]
  omega

theorem tokensIn_cons_text (content : List Char) (events : List Event) :
    tokensIn (.text content :: events) = tokens content + tokensIn events :=
  rfl

theorem tokensIn_append (events others : List Event) :
    tokensIn (events ++ others) = tokensIn events + tokensIn others := by
  rw [tokensIn, List.filterMap_append, tokensAmong_append, tokensIn, tokensIn]

theorem tokensIn_of_noText {events : List Event}
    (noText : ∀ event ∈ events, event.text? = none) : tokensIn events = 0 := by
  rw [tokensIn, List.filterMap_eq_nil_iff.mpr noText]
  rfl

theorem tokensIn_le_of_suffix {events others : List Event} (suffix : events <:+ others) :
    tokensIn events ≤ tokensIn others := by
  obtain ⟨added, rfl⟩ := suffix
  rw [tokensIn_append]
  exact Nat.le_add_left _ _

theorem tokens_eq_zero_of_tokensIn_le {events : List Event} {event : Event} {content : List Char}
    (none : tokensIn events = 0) (eventMem : event ∈ events) (isText : content ∈ event.text?) :
    tokens content = 0 :=
  Nat.le_zero.mp (none ▸ tokens_le_tokensAmong (List.mem_filterMap.mpr ⟨event, eventMem, isText⟩))

theorem IsFree.whileExpanding (free : IsFree entities) (name : List Char) :
    IsFree (entities.whileExpanding name) := by
  intro other text held
  rw [Entities.whileExpanding, List.lookup_cons] at held
  split at held
  · cases held
  · exact free other text held

end Tokens

namespace Grows

theorem trans (first : Grows scan cs next rest) (second : Grows next rest last left) :
    Grows scan cs last left where
  suffix := first.suffix.trans second.suffix
  tokens_le := second.tokens_le.trans first.tokens_le

/-- What is in front of a text adds nothing to it. -/
theorem of_append (taken : List Char) (grows : Grows scan rest last left) :
    Grows scan (taken ++ rest) last left where
  suffix := grows.suffix
  tokens_le := grows.tokens_le.trans (Nat.add_le_add_left (tokens_le_append taken rest) _)

end Grows

theorem grows_of_readsMarkup (reads : Scan.ReadsMarkup use entities fuel scan next cs rest) :
    Grows scan cs next rest := by
  obtain ⟨taken, events, _, rfl, noText, events_eq, _⟩ := reads
  constructor
  · rw [events_eq]
    exact List.suffix_append events scan.events
  · rw [events_eq, tokensIn_append, tokensIn_of_noText noText, Nat.zero_add]
    exact Nat.add_le_add_left (tokens_le_append taken rest) _

/-- No token reaches over the end of a section, nor over an angle bracket or an ampersand. -/
theorem sectionEnd_boundary (rest : List Char) :
    ∀ x ∈ (sectionEnd ++ rest).head?, x ∉ token := by
  simp [sectionEnd, token]

theorem plain_boundary {run : List Char} (isRun : IsRun Scan.isPlain run rest) :
    ∀ x ∈ rest.head?, x ∉ token := by
  intro x xMem inToken
  have allPlain : token.all Scan.isPlain = true := by decide
  have isMarkup := isRun.ends x xMem
  rw [List.all_eq_true.mp allPlain x inToken] at isMarkup
  cases isMarkup

theorem tokens_section (content rest : List Char) :
    tokens ("![CDATA[".toList ++ (content ++ (sectionEnd ++ rest))) =
      tokens content + tokens rest := by
  rw [tokens_append_of_notMem (by decide), tokens_append (sectionEnd_boundary rest),
    tokens_append_of_notMem (by decide)]

theorem stampText_section (watermark content rest : List Char) :
    stampText watermark ("![CDATA[".toList ++ (content ++ (sectionEnd ++ rest))) =
      "![CDATA[".toList ++
        (stampText watermark content ++ (sectionEnd ++ stampText watermark rest)) := by
  rw [stampText_append_of_notMem watermark (by decide),
    stampText_append (sectionEnd_boundary rest), stampText_append_of_notMem watermark (by decide)]

theorem readMarkup_grows (read : scan.readMarkup use entities fuel cs = some (next, rest)) :
    Grows scan cs next rest := by
  rcases Scan.readMarkup_cases read with reads | ⟨content, rfl, _, rfl⟩
  · exact grows_of_readsMarkup reads
  · constructor
    · exact List.suffix_cons _ _
    · rw [tokens_section, Scan.push, tokensIn_cons_text]
      omega

theorem afterEntity_grows (use : EntityUse) {inner : Scan} (suffix : scan.events <:+ inner.events)
    (none : tokensIn inner.events ≤ tokensIn scan.events) (cs : List Char) :
    Grows scan cs (Scan.afterEntity use scan inner) cs := by
  cases use with
  | resolve => exact ⟨suffix, Nat.add_le_add_right none _⟩
  | keep => exact ⟨List.suffix_cons _ _, le_rfl⟩

theorem grows_of_readMarkup (read : scan.readMarkup use entities fuel cs = some (next, rest)) :
    Grows scan ('<' :: cs) next rest :=
  (readMarkup_grows read).of_append ['<']

theorem reads_grows (reads : Scan.Reads use fuel entities scan cs last left)
    (free : IsFree entities) : Grows scan cs last left := by
  induction reads with
  | done => exact ⟨List.suffix_rfl, le_rfl⟩
  | finished reads => exact grows_of_readMarkup reads
  | markup reads _ _ ih => exact (grows_of_readMarkup reads).trans (ih free)
  | @char fuel entities scan last cs rest left c isChar _ ih =>
      obtain ⟨taken, _, rfl, _⟩ := readReference_cutsOff isChar
      have here : Grows scan rest (scan.push (.text [c])) rest := by
        refine ⟨List.suffix_cons _ _, ?_⟩
        rw [Scan.push, tokensIn_cons_text, tokens_singleton, Nat.zero_add]
      exact (here.trans (ih free)).of_append ('&' :: taken)
  | @entity fuel entities scan inner last cs name text rest left isEntity held _ _ _ _ ihInner
      ihRest =>
      obtain ⟨taken, _, rfl, _⟩ := readReference_cutsOff isEntity
      -- the text of the entity has no tokens, so what is read in it has none
      have inside := ihInner (free.whileExpanding name)
      have none := inside.tokens_le
      rw [free name text held] at none
      have suffix : scan.events <:+ inner.events := inside.suffix
      have here := afterEntity_grows use suffix none rest
      exact (here.trans (ihRest free)).of_append ('&' :: taken)
  | @kept fuel entities scan last cs name rest left _ isEntity _ _ _ ih =>
      obtain ⟨taken, _, rfl, _⟩ := readReference_cutsOff isEntity
      have here : Grows scan rest (scan.push .aside) rest := ⟨List.suffix_cons _ _, le_rfl⟩
      exact (here.trans (ih free)).of_append ('&' :: taken)
  | @plain fuel entities scan last run rest left filled isRun _ _ ih =>
      have here : Grows scan (run ++ rest) (scan.push (.text run)) rest := by
        refine ⟨List.suffix_cons _ _, ?_⟩
        rw [Scan.push, tokensIn_cons_text, tokens_append (plain_boundary isRun)]
        omega
      exact here.trans (ih free)

namespace Follows

theorem text (follows : Follows watermark entities scan scan') (content : List Char) :
    Follows watermark entities (scan.push (.text content))
      (scan'.push (.text (stampText watermark content))) where
  events := .text content follows.events
  depth_eq := follows.depth_eq
  room := follows.room

theorem emptied (follows : Follows watermark entities scan scan') {content : List Char}
    (empty : stampText watermark content = []) :
    Follows watermark entities (scan.push (.text content)) scan' where
  events := .emptied empty follows.events
  depth_eq := follows.depth_eq
  room := follows.room

theorem other (follows : Follows watermark entities scan scan') {event : Event}
    (noText : event.text? = none) :
    Follows watermark entities (scan.push event) (scan'.push event) where
  events := .other noText follows.events
  depth_eq := follows.depth_eq
  room := follows.room

end Follows

theorem FitsIn.of_suffix {events others : List Event} (fits : FitsIn watermark others)
    (suffix : events <:+ others) : FitsIn watermark events :=
  fun event eventMem => fits event (suffix.subset eventMem)

/-- Texts without tokens always fit. -/
theorem FitsIn.of_tokensIn_le {events others : List Event} (fits : FitsIn watermark events)
    (suffix : events <:+ others) (none : tokensIn others ≤ tokensIn events) :
    FitsIn watermark others := by
  obtain ⟨added, rfl⟩ := suffix
  rw [tokensIn_append] at none
  intro event eventMem content isText some_
  rcases List.mem_append.mp eventMem with inAdded | inEvents
  · exact absurd (tokens_eq_zero_of_tokensIn_le (by omega) inAdded isText) some_
  · exact fits event inEvents content isText some_

/-- A step of reading leaves fuel for what takes fewer steps. -/
theorem HasFuel.step {steps : Nat} (enough : HasFuel steps (fuel + 1) fuel') :
    ∃ less, fuel' = less + 1 ∧ min fuel (steps - 1) ≤ less ∧
      ∀ fewer, fewer < steps → HasFuel fewer fuel less := by
  obtain ⟨less, rfl⟩ : ∃ less, fuel' = less + 1 := by
    refine ⟨fuel' - 1, ?_⟩
    rcases enough with more | more <;> omega
  refine ⟨less, rfl, ?_, fun fewer isFewer => ?_⟩
  · rcases enough with more | more <;> omega
  · rcases enough with more | more
    · exact .inl (by omega)
    · exact .inr (by omega)

theorem stepsIn_lt {cs' rest' : List Char} (shorter : rest'.length < cs'.length)
    (entities : Entities) : stepsIn entities rest' < stepsIn entities cs' :=
  Nat.add_lt_add_right shorter _

theorem least_of_stepsIn {c : Char} {cs' : List Char}
    (least : min fuel (stepsIn entities (c :: cs') - 1) ≤ fuel') : min fuel cs'.length ≤ fuel' := by
  rw [stepsIn, List.length_cons] at least
  omega

/-- The text of an entity takes fewer steps than what refers to it. -/
theorem stepsIn_whileExpanding_lt {name text : List Char}
    (held : entities.lookup name = some (.internal text)) (cs' : List Char) :
    stepsIn (entities.whileExpanding name) text < stepsIn entities cs' := by
  have all := Entities.stepsBeside_of_lookup held List.not_mem_nil
  rw [stepsIn, stepsIn, Entities.stepsBeside_whileExpanding]
  omega

theorem tokens_le_of_cutsOff {γ : Type} {reader : List Char → Option γ} {result : List Char → γ}
    (cuts : CutsOff reader result cs rest) : tokens rest ≤ tokens cs := by
  obtain ⟨taken, _, rfl, _⟩ := cuts
  exact tokens_le_append taken rest

/-- What is cut off without tokens is cut off the stamped text as well. -/
theorem cutsOff_stampText {γ : Type} {reader : List Char → Option γ} {result : List Char → γ}
    (watermark : List Char) (cuts : CutsOff reader result cs rest)
    (none : tokens cs ≤ tokens rest) :
    reader (stampText watermark cs) = some (result (stampText watermark rest)) ∧
      (stampText watermark rest).length < (stampText watermark cs).length := by
  obtain ⟨taken, marked, rfl, reads⟩ := cuts
  have positive := List.length_pos_iff.mpr marked.ne_nil
  rw [stampText_append_of_tokens_le watermark none]
  exact ⟨reads _, by rw [List.length_append]; omega⟩

/-- A piece of markup is read alike when it is stamped. -/
theorem readMarkup_stamped (read : scan.readMarkup use entities fuel cs = some (next, rest))
    (all : tokensIn scan.events + tokens cs ≤ tokensIn next.events + tokens rest)
    (fits : FitsIn watermark next.events) (follows : Follows watermark entities scan scan')
    (enough : min fuel (stampText watermark cs).length ≤ fuel') :
    ∃ next', scan'.readMarkup use entities fuel' (stampText watermark cs) =
        some (next', stampText watermark rest) ∧ Follows watermark entities next next' ∧
      (stampText watermark rest).length ≤ (stampText watermark cs).length := by
  rcases Scan.readMarkup_cases read with
    ⟨taken, events, _, rfl, noText, events_eq, reads⟩ | ⟨content, rfl, free, rfl⟩
  · rw [events_eq, tokensIn_append, tokensIn_of_noText noText, Nat.zero_add] at all
    rw [stampText_append_of_tokens_le watermark (by omega)] at enough ⊢
    rw [List.length_append] at enough
    obtain ⟨next', read', adds⟩ := reads fuel' (by omega) scan' follows.depth_eq follows.room
      (stampText watermark rest)
    refine ⟨next', read', ⟨?_, adds.depth_eq, adds.room⟩, by simp⟩
    rw [events_eq, adds.events_eq]
    exact (Retexted.of_noText noText).append follows.events
  · rw [stampText_section, Scan.readMarkup_section]
    refine ⟨scan'.push (.text (stampText watermark content)), ?_, follows.text content, ?_⟩
    · have free' : ¬sectionEnd <:+: stampText watermark content := by
        by_cases none : tokens content = 0
        · rwa [stampText_of_tokens_eq_zero watermark none]
        · exact fits _ List.mem_cons_self content rfl none
      rw [Scan.cutAfter_sectionEnd_iff.mpr ⟨rfl, free'⟩, Option.map_some]
    · simp only [List.length_append]
      omega

/-- A reference is read alike when it is stamped. -/
theorem readReference_stamped {reference : Reference} (watermark : List Char)
    (read : Reference.read cs = some (reference, rest)) (none : tokens cs ≤ tokens rest) :
    Reference.read (stampText watermark cs) = some (reference, stampText watermark rest) ∧
      (stampText watermark rest).length < (stampText watermark ('&' :: cs)).length := by
  obtain ⟨read', shorter⟩ := cutsOff_stampText watermark (readReference_cutsOff read) none
  refine ⟨read', ?_⟩
  rw [stampText_cons_of_ne watermark (by decide), List.length_cons]
  omega

/-- Plain text is read as one when it is stamped. -/
theorem isRun_stampText (inert : ∀ c ∈ watermark, Scan.isPlain c = true) {run : List Char}
    (isRun : IsRun Scan.isPlain run rest) :
    IsRun Scan.isPlain (stampText watermark run) (stampText watermark rest) where
  all := fun c cMem => (mem_stampText cMem).elim (isRun.all c) (inert c)
  ends := by
    rw [head?_stampText_of_boundary (plain_boundary isRun)]
    exact isRun.ends

/-- An entity is expanded alike. -/
theorem Follows.whileExpanding (follows : Follows watermark entities scan scan')
    {name text : List Char} (held : entities.lookup name = some (.internal text)) :
    Follows watermark (entities.whileExpanding name)
      { scan with depth := 1, allowance := scan.allowance - text.length }
      { scan' with depth := 1, allowance := scan'.allowance - text.length } where
  events := follows.events
  depth_eq := rfl
  room := .inr (Nat.sub_le_sub_right (follows.room.le_of_lookup held) _)

theorem Follows.afterEntity (follows : Follows watermark entities scan scan') {name : List Char}
    {inner inner' : Scan}
    (followsInner : Follows watermark (entities.whileExpanding name) inner inner') :
    Follows watermark entities (Scan.afterEntity use scan inner)
      (Scan.afterEntity use scan' inner') := by
  have room : entities.HasRoom inner.allowance inner'.allowance :=
    .inr (followsInner.room.resolve_left (List.cons_ne_nil _ _))
  cases use with
  | resolve => exact ⟨followsInner.events, follows.depth_eq, room⟩
  | keep => exact ⟨.other rfl follows.events, follows.depth_eq, room⟩

section Cases

variable {name text run : List Char} {inner : Scan} {c : Char}

theorem isStampable_done : IsStampable watermark use (fuel + 1) entities scan [] scan [] := by
  intro _ _ _ fuel' scan' follows enough
  obtain ⟨less, rfl, _, _⟩ := enough.step
  exact ⟨scan', .done, follows⟩

theorem isStampable_finished
    (reads : scan.readMarkup use entities fuel cs = some (next, rest)) (closed : next.depth = 0) :
    IsStampable watermark use (fuel + 1) entities scan ('<' :: cs) next rest := by
  intro _ all fits fuel' scan' follows enough
  rw [tokens_cons_of_ne (by decide)] at all
  rw [stampText_cons_of_ne watermark (by decide)] at enough ⊢
  obtain ⟨less, rfl, least, _⟩ := enough.step
  have leastHere := least_of_stepsIn least
  obtain ⟨next', reads', follows', _⟩ := readMarkup_stamped reads all fits follows leastHere
  exact ⟨next', .finished reads' (follows'.depth_eq.trans closed), follows'⟩

theorem isStampable_markup
    (reads : scan.readMarkup use entities fuel cs = some (next, rest)) (opened : next.depth ≠ 0)
    (readsRest : Scan.Reads use fuel entities next rest last left)
    (stampable : IsStampable watermark use fuel entities next rest last left) :
    IsStampable watermark use (fuel + 1) entities scan ('<' :: cs) last left := by
  intro free all fits fuel' scan' follows enough
  have growsHere := (readMarkup_grows reads).tokens_le
  have growsRest := reads_grows readsRest free
  have growsRest_le := growsRest.tokens_le
  rw [tokens_cons_of_ne (by decide)] at all
  rw [stampText_cons_of_ne watermark (by decide)] at enough ⊢
  obtain ⟨less, rfl, least, later⟩ := enough.step
  have leastHere := least_of_stepsIn least
  obtain ⟨next', reads', follows', shorter⟩ := readMarkup_stamped reads (by omega)
    (fits.of_suffix growsRest.suffix) follows leastHere
  obtain ⟨last', readsRest', followsLast⟩ := stampable free (by omega) fits follows'
    (later _ (stepsIn_lt (Nat.lt_succ_of_le shorter) entities))
  exact ⟨last', .markup reads' (follows'.depth_eq ▸ opened) readsRest', followsLast⟩

theorem isStampable_char (isChar : Reference.read cs = some (.char c, rest))
    (readsRest : Scan.Reads use fuel entities (scan.push (.text [c])) rest last left)
    (stampable : IsStampable watermark use fuel entities (scan.push (.text [c])) rest last left) :
    IsStampable watermark use (fuel + 1) entities scan ('&' :: cs) last left := by
  intro free all fits fuel' scan' follows enough
  have inFront := tokens_le_of_cutsOff (readReference_cutsOff isChar)
  have growsRest := (reads_grows readsRest free).tokens_le
  have same : tokensIn (scan.push (.text [c])).events = tokensIn scan.events := by
    rw [Scan.push, tokensIn_cons_text, tokens_singleton, Nat.zero_add]
  rw [tokens_cons_of_ne (by decide)] at all
  obtain ⟨isChar', shorter⟩ := readReference_stamped watermark isChar (by omega)
  obtain ⟨less, rfl, _, later⟩ := enough.step
  have followsHere := follows.text [c]
  rw [stampText_of_tokens_eq_zero watermark (tokens_singleton c)] at followsHere
  obtain ⟨last', readsRest', followsLast⟩ := stampable free (by omega) fits followsHere
    (later _ (stepsIn_lt shorter entities))
  rw [stampText_cons_of_ne watermark (by decide)]
  exact ⟨last', .char isChar' readsRest', followsLast⟩

/-- The text of an entity adds no tokens, so that it is read as it was. -/
theorem isStampable_entity (isEntity : Reference.read cs = some (.entity name, rest))
    (held : entities.lookup name = some (.internal text)) (short : text.length ≤ scan.allowance)
    (readsInner : Scan.Reads use fuel (entities.whileExpanding name)
      { scan with depth := 1, allowance := scan.allowance - text.length } text inner [])
    (depth_eq : inner.depth = 1)
    (readsRest : Scan.Reads use fuel entities (Scan.afterEntity use scan inner) rest last left)
    (stampableInner : IsStampable watermark use fuel (entities.whileExpanding name)
      { scan with depth := 1, allowance := scan.allowance - text.length } text inner [])
    (stampable : IsStampable watermark use fuel entities (Scan.afterEntity use scan inner) rest
      last left) :
    IsStampable watermark use (fuel + 1) entities scan ('&' :: cs) last left := by
  intro free all fits fuel' scan' follows enough
  have inFront := tokens_le_of_cutsOff (readReference_cutsOff isEntity)
  have freeInside := free.whileExpanding name
  have noTokens := free name text held
  have inside := reads_grows readsInner freeInside
  have suffix : scan.events <:+ inner.events := inside.suffix
  have fewer : tokensIn inner.events ≤ tokensIn scan.events := by
    have fewer := inside.tokens_le
    rwa [noTokens] at fewer
  have growsHere := afterEntity_grows use suffix fewer rest
  have growsHere_le := growsHere.tokens_le
  have growsRest := reads_grows readsRest free
  have growsRest_le := growsRest.tokens_le
  rw [tokens_cons_of_ne (by decide)] at all
  obtain ⟨isEntity', shorter⟩ := readReference_stamped watermark isEntity (by omega)
  obtain ⟨less, rfl, _, later⟩ := enough.step
  -- first the text of the entity, which is not changed, then what follows the reference
  have fitsInner : FitsIn watermark inner.events :=
    (fits.of_suffix (growsHere.suffix.trans growsRest.suffix)).of_tokensIn_le suffix fewer
  have allInner : tokensIn scan.events + tokens text ≤ tokensIn inner.events + tokens [] := by
    rw [noTokens]
    exact tokensIn_le_of_suffix suffix
  have enoughInner : HasFuel (stepsIn (entities.whileExpanding name) (stampText watermark text))
      fuel less := by
    rw [stampText_of_tokens_eq_zero watermark noTokens]
    exact later _ (stepsIn_whileExpanding_lt held _)
  obtain ⟨inner', readsInner', followsInner⟩ :=
    stampableInner freeInside allInner fitsInner (follows.whileExpanding held) enoughInner
  rw [stampText_of_tokens_eq_zero watermark noTokens, stampText_nil] at readsInner'
  obtain ⟨last', readsRest', followsLast⟩ := stampable free (by omega) fits
    (follows.afterEntity followsInner) (later _ (stepsIn_lt shorter entities))
  have short' : text.length ≤ scan'.allowance := short.trans (follows.room.le_of_lookup held)
  rw [stampText_cons_of_ne watermark (by decide)]
  exact ⟨last', .entity isEntity' held short' readsInner' (followsInner.depth_eq.trans depth_eq)
    readsRest', followsLast⟩

theorem isStampable_kept (keeps : use = .keep)
    (isEntity : Reference.read cs = some (.entity name, rest))
    (noText : ∀ text, entities.lookup name ≠ some (.internal text))
    (notExpanding : entities.lookup name ≠ some .expanding)
    (readsRest : Scan.Reads use fuel entities (scan.push .aside) rest last left)
    (stampable : IsStampable watermark use fuel entities (scan.push .aside) rest last left) :
    IsStampable watermark use (fuel + 1) entities scan ('&' :: cs) last left := by
  intro free all fits fuel' scan' follows enough
  have inFront := tokens_le_of_cutsOff (readReference_cutsOff isEntity)
  have growsRest := (reads_grows readsRest free).tokens_le
  have same : tokensIn (scan.push .aside).events = tokensIn scan.events := rfl
  rw [tokens_cons_of_ne (by decide)] at all
  obtain ⟨isEntity', shorter⟩ := readReference_stamped watermark isEntity (by omega)
  obtain ⟨less, rfl, _, later⟩ := enough.step
  obtain ⟨last', readsRest', followsLast⟩ := stampable free (by omega) fits (follows.other rfl)
    (later _ (stepsIn_lt shorter entities))
  rw [stampText_cons_of_ne watermark (by decide)]
  exact ⟨last', .kept keeps isEntity' noText notExpanding readsRest', followsLast⟩

/-- A text that becomes empty is not read at all. -/
theorem isStampable_plain (inert : ∀ c ∈ watermark, Scan.isPlain c = true)
    (isRun : IsRun Scan.isPlain run rest) (noEnd : ¬sectionEnd <:+: run)
    (readsRest : Scan.Reads use fuel entities (scan.push (.text run)) rest last left)
    (stampable : IsStampable watermark use fuel entities (scan.push (.text run)) rest last left) :
    IsStampable watermark use (fuel + 1) entities scan (run ++ rest) last left := by
  intro free all fits fuel' scan' follows enough
  have boundary := plain_boundary isRun
  rw [tokens_append boundary] at all
  rw [stampText_append boundary] at enough ⊢
  have same : tokensIn (scan.push (.text run)).events = tokens run + tokensIn scan.events := rfl
  have growsRest := reads_grows readsRest free
  have growsRest_le := growsRest.tokens_le
  by_cases empty : stampText watermark run = []
  · rw [empty, List.nil_append] at enough ⊢
    exact stampable free (by omega) fits (follows.emptied empty) (enough.imp_left Nat.le_of_succ_le)
  · have fitsRun : ¬sectionEnd <:+: stampText watermark run := by
      by_cases none : tokens run = 0
      · rwa [stampText_of_tokens_eq_zero watermark none]
      · exact fits _ (growsRest.suffix.subset List.mem_cons_self) run rfl none
    have positive := List.length_pos_iff.mpr empty
    obtain ⟨less, rfl, _, later⟩ := enough.step
    obtain ⟨last', readsRest', followsLast⟩ := stampable free (by omega) fits (follows.text run)
      (later _ (stepsIn_lt (by rw [List.length_append]; omega) entities))
    exact ⟨last', .plain empty (isRun_stampText inert isRun) fitsRun readsRest', followsLast⟩

end Cases

/-- Content is read alike when it is stamped with a watermark that is no markup. -/
theorem reads_stamped (inert : ∀ c ∈ watermark, Scan.isPlain c = true)
    (reads : Scan.Reads use fuel entities scan cs last left) :
    IsStampable watermark use fuel entities scan cs last left := by
  induction reads with
  | done => exact isStampable_done
  | finished reads closed => exact isStampable_finished reads closed
  | markup reads opened readsRest ih => exact isStampable_markup reads opened readsRest ih
  | char isChar readsRest ih => exact isStampable_char isChar readsRest ih
  | entity isEntity held short readsInner depth_eq readsRest ihInner ih =>
      exact isStampable_entity isEntity held short readsInner depth_eq readsRest ihInner ih
  | kept keeps isEntity noText notExpanding readsRest ih =>
      exact isStampable_kept keeps isEntity noText notExpanding readsRest ih
  | plain _ isRun noEnd readsRest ih => exact isStampable_plain inert isRun noEnd readsRest ih

end Stencil.Watermark
