import Stencil.Proofs.Package.Watermark
import Stencil.Proofs.Stamping.Document
import Stencil.Proofs.Xml.Encoding

/-!
# Stamped parts

A watermark is written into the bytes of a part.  When the part is a document in UTF-8, and the
watermark is no markup, the part is a document again: the one that has the watermark in its texts.
Markup in a watermark is read as such.
-/

namespace Stencil.Watermark

open Xml

/-- A document in UTF-8 as its bytes are read: its characters, the declarations in front of the
root element, and its tree. -/
structure IsDocument (use : EntityUse) (bytes : Bytes) (text : List Char) (doctype : Doctype)
    (root : Node) : Prop where
  utf8 : Encoding.IsUtf8 bytes
  decoded : Encoding.decode? bytes = some text
  parsed : Node.parse? use bytes = some root
  prolog : ∃ rest, Node.readProlog (Text.unifyLineEnds text).length (Text.unifyLineEnds text) =
    some (doctype, rest)

/-- Tells that a watermark can stand in a document as it is: its characters are allowed and are no
line ends that would be written anew, and it is plain text. -/
structure IsTextFor (watermark text : List Char) (doctype : Doctype) (root : Node) : Prop where
  allowed : ∀ c ∈ watermark, isAllowed c = true
  noReturn : '\r' ∉ watermark
  keeps : KeepsLineEnds watermark text
  plain : IsPlainFor watermark (Text.unifyLineEnds text) doctype root

variable {watermark text : List Char} {use : EntityUse} {bytes : Bytes} {doctype : Doctype}
  {root : Node}

theorem bracket_of_unifyLineEnds {front back : List Char}
    (unified : Text.unifyLineEnds text = front ++ '>' :: back) :
    ∃ front' back', text = front' ++ '>' :: back' ∧ Text.unifyLineEnds back' = back := by
  fun_induction Text.unifyLineEnds text generalizing front with
  | case1 => simp at unified
  | case2 rest ih =>
      cases front with
      | nil => cases unified
      | cons c front =>
          obtain ⟨front', back', rfl, same⟩ := ih (List.cons.inj unified).2
          exact ⟨'\r' :: '\n' :: front', back', rfl, same⟩
  | case3 rest _ ih =>
      cases front with
      | nil => cases unified
      | cons c front =>
          obtain ⟨front', back', rfl, same⟩ := ih (List.cons.inj unified).2
          exact ⟨'\r' :: front', back', rfl, same⟩
  | case4 c rest _ _ ih =>
      cases front with
      | nil =>
          obtain ⟨rfl, same⟩ := List.cons.inj unified
          exact ⟨[], rest, rfl, same⟩
      | cons d front =>
          obtain ⟨front', back', rfl, same⟩ := ih (List.cons.inj unified).2
          exact ⟨c :: front', back', rfl, same⟩

theorem HasBracket.of_unifyLineEnds
    (bracket : HasBracket (Text.unifyLineEnds text) (Text.unifyLineEnds text)) :
    HasBracket text text := by
  obtain ⟨front, back, unified, fewer⟩ := bracket
  obtain ⟨front', back', text_eq, rfl⟩ := bracket_of_unifyLineEnds unified
  rw [tokens_unifyLineEnds, tokens_unifyLineEnds] at fewer
  exact ⟨front', back', text_eq, fewer⟩

theorem encode_mark (text : List Char) :
    Utf8.encode ('\uFEFF' :: text) = Utf8.mark ++ Utf8.encode text :=
  rfl

/-- What begins with the same bytes up to a bracket is decoded by the same encoding. -/
theorem decode?_encode_of_bracket {front back back' : List Char}
    (utf8 : Encoding.IsUtf8 (Utf8.encode (front ++ '>' :: back)))
    (unmarked : ¬Utf8.mark <+: Utf8.encode (front ++ '>' :: back)) :
    Encoding.decode? (Utf8.encode (front ++ '>' :: back')) = some (front ++ '>' :: back') := by
  have split_eq (rest : List Char) : Utf8.encode (front ++ '>' :: rest) =
      (Utf8.encode front ++ [0x3E]) ++ Utf8.encode rest := by
    rw [Utf8.encode_append, Utf8.encode_cons, ← List.append_assoc]
    rfl
  have bracketMem : 0x3E ∈ Utf8.encode front ++ [0x3E] :=
    List.mem_append_right _ (List.mem_singleton_self _)
  rw [split_eq, Encoding.isUtf8_append_iff bracketMem] at utf8
  rw [split_eq, Encoding.mark_prefix_append_iff bracketMem] at unmarked
  rw [Encoding.decode?_of_unmarked, Utf8.decode?_eq_some_iff]
  · rw [split_eq, Encoding.isUtf8_append_iff bracketMem]
    exact utf8
  · rw [split_eq, Encoding.mark_prefix_append_iff bracketMem]
    exact unmarked

/-- A stamped part is decoded to the stamped text. -/
theorem stampContent_decoded (watermark : List Char) (utf8 : Encoding.IsUtf8 bytes)
    (decoded : Encoding.decode? bytes = some text) (bracket : HasBracket text text) :
    ∃ stamped, stampContent watermark bytes = some stamped ∧
      Encoding.decode? stamped = some (stampText watermark text) := by
  by_cases marked : Utf8.mark <+: bytes
  · obtain ⟨content, rfl⟩ := marked
    rw [Encoding.decode?_mark_append, Utf8.decode?_eq_some_iff] at decoded
    refine ⟨Utf8.mark ++ Utf8.encode (stampText watermark text), ?_, ?_⟩
    · rw [← decoded, ← encode_mark, stampContent, Utf8.decode?_eq_some_iff.mpr rfl, Option.map_some,
        ← stampText, stampText_cons_of_ne watermark (by decide), encode_mark]
    · rw [Encoding.decode?_mark_append, Utf8.decode?_eq_some_iff]
  · rw [Encoding.decode?_of_unmarked utf8 marked] at decoded
    refine ⟨Utf8.encode (stampText watermark text), ?_, ?_⟩
    · rw [stampContent, decoded]
      rfl
    · rw [Utf8.decode?_eq_some_iff] at decoded
      subst decoded
      obtain ⟨front, back, rfl, fewer⟩ := bracket
      have inFront : tokens (front ++ ['>'] ++ back) ≤ tokens back := by
        rwa [List.append_assoc, List.singleton_append]
      have stamped_eq := stampText_append_of_tokens_le watermark inFront
      rw [List.append_assoc, List.singleton_append, List.append_assoc, List.singleton_append]
        at stamped_eq
      rw [stamped_eq]
      exact decode?_encode_of_bracket utf8 marked

/-- A document that is stamped with a text is a document: the same one with its texts stamped. -/
theorem parse?_stamped (document : IsDocument use bytes text doctype root)
    (inTexts : InTexts (Text.unifyLineEnds text) doctype root)
    (isText : IsTextFor watermark text doctype root) :
    ∃ stamped root', stampContent watermark bytes = some stamped ∧
      Node.parse? use stamped = some root' ∧
      root'.withTexts id = root.withTexts (stampText watermark) := by
  have parsed := document.parsed
  simp only [Node.parse?, document.decoded, Option.bind_eq_bind, Option.bind_some] at parsed
  split at parsed
  · next allowed =>
      obtain ⟨rest, prolog⟩ := document.prolog
      have bracket := (bracket_of_read parsed prolog inTexts).of_unifyLineEnds
      obtain ⟨stamped, stamps, decoded⟩ :=
        stampContent_decoded watermark document.utf8 document.decoded bracket
      obtain ⟨root', read, same⟩ := ofChars?_stamped parsed prolog inTexts isText.plain
      refine ⟨stamped, root', stamps, ?_, same⟩
      have allowed' : (stampText watermark (Text.unifyLineEnds text)).all isAllowed = true := by
        rw [List.all_eq_true] at allowed ⊢
        exact fun c cMem => (mem_stampText cMem).elim (allowed c) (isText.allowed c)
      simp only [Node.parse?, decoded, Option.bind_eq_bind, Option.bind_some]
      rw [unifyLineEnds_stampText isText.noReturn isText.keeps, if_pos allowed', read]
  · cases parsed

/-- A watermark without markup characters is written as text: a part that is a document in UTF-8
with its tokens in character data is well-formed when it is stamped, and has the elements and the
character data that it had, with the watermark in the place of every token. -/
theorem watermark_is_text {source : Source} {package : Package} {archive : Archive}
    (handed : source.package? = some package) (opened : package.archive? = some archive)
    {watermark part : String} (held : archive.content? part = some bytes)
    (document : IsDocument use bytes text doctype root)
    (inTexts : InTexts (Text.unifyLineEnds text) doctype root)
    (isText : IsTextFor watermark.toList text doctype root) :
    ∃ stamped content root', stampSource source watermark part = .ok (.archive stamped) ∧
      stamped.content? part = some content ∧ Node.parse? use content = some root' ∧
      root'.withTexts id = root.withTexts (stampText watermark.toList) := by
  obtain ⟨content, root', stamps, parsed, same⟩ := parse?_stamped document inTexts isText
  have listed : part ∈ archive.names := Archive.mem_names_of_content? held
  rw [← Archive.contentOf_of_content? held] at stamps
  have written := stampArchive_of_content stamps
  refine ⟨withPart archive part content, content, root', ?_, content?_withPart listed, parsed, same⟩
  rw [stampSource_eq handed, stamp, opened]
  simp [Archive.lists, listed, written]

/-- The text of a header with a token in plain characters and another one in a section. -/
def headerText : List Char :=
  ("<?xml version='1.0' encoding='UTF-8'?>\n<w:hdr xmlns:w='urn:w'><w:t>\x7bWatermark\x7d &amp; " ++
    "<![CDATA[<\x7bWatermark\x7d>]]></w:t></w:hdr>").toList

/-- The texts of the header. -/
def headerTexts : List (List Char) :=
  ["\x7bWatermark\x7d ".toList, ['&'], [' '], "<\x7bWatermark\x7d>".toList]

/-- An archive with the header as its only part. -/
def headerArchive : Archive where
  entries := [("word/header2.xml", Utf8.encode headerText)]

theorem isDocument_headerText : ∃ root,
    IsDocument .resolve (Utf8.encode headerText) headerText {} root ∧ root.texts = headerTexts := by
  have texts : (Node.parse? .resolve (Utf8.encode headerText)).map Node.texts =
      some headerTexts := by decide +kernel
  have undeclared : (Node.readProlog (Text.unifyLineEnds headerText).length
      (Text.unifyLineEnds headerText)).map
        (fun prolog => (prolog.1.entities, prolog.1.parameters)) = some ([], []) := by
    decide +kernel
  obtain ⟨root, parsed, texts_eq⟩ := Option.map_eq_some_iff.mp texts
  obtain ⟨⟨⟨entities, parameters⟩, rest⟩, prolog, same⟩ := Option.map_eq_some_iff.mp undeclared
  cases same
  have utf8 : Encoding.IsUtf8 (Utf8.encode headerText) :=
    ⟨by decide +kernel, fun _ => by decide +kernel⟩
  exact ⟨root, ⟨utf8, by decide +kernel, parsed, rest, prolog⟩, texts_eq⟩

theorem watermark_is_text_headerText : ∃ root stamped content root',
    Node.parse? .resolve (Utf8.encode headerText) = some root ∧
      stampSource (.memory (.archive headerArchive)) "R > D" "word/header2.xml" =
        .ok (.archive stamped) ∧
      stamped.content? "word/header2.xml" = some content ∧
      Node.parse? .resolve content = some root' ∧
      root'.withTexts id = root.withTexts (stampText "R > D".toList) := by
  obtain ⟨root, document, texts_eq⟩ := isDocument_headerText
  have inTexts : InTexts (Text.unifyLineEnds headerText) {} root := by
    refine ⟨fun _ _ held => ?_, fun _ _ held => ?_, ?_⟩
    · cases held
    · cases held
    · rw [texts_eq]
      decide +kernel
  have inert : "R > D".toList.all Scan.isPlain = true := by decide
  have allowed : "R > D".toList.all isAllowed = true := by decide
  have plain : IsPlainFor "R > D".toList (Text.unifyLineEnds headerText) {} root := by
    refine ⟨List.all_eq_true.mp inert, ?_, .inl rfl, .inl rfl⟩
    rw [texts_eq]
    decide +kernel
  have isText : IsTextFor "R > D".toList headerText {} root :=
    ⟨List.all_eq_true.mp allowed, by decide, keepsLineEnds_of_notMem _ (by decide +kernel), plain⟩
  have handed : (Source.memory (.archive headerArchive)).package? =
      some (.archive headerArchive) := rfl
  have held : headerArchive.content? "word/header2.xml" = some (Utf8.encode headerText) := rfl
  obtain ⟨stamped, content, root', done⟩ :=
    watermark_is_text handed rfl held document inTexts isText
  exact ⟨root, stamped, content, root', document.parsed, done⟩

/-- The character data of the header when a watermark is written into it, if it can be read. -/
def headerCharacters? (watermark : String) : Option (List Char) := do
  let stamped ← stampContent watermark.toList (Utf8.encode headerText)
  (Node.parse? .resolve stamped).map fun root => root.texts.flatten

/-- Markup in a watermark is read as markup, except in a section. -/
theorem markup_is_read :
    headerCharacters? "R&amp;D" = some "R&D & <R&amp;D>".toList ∧
      stampText "R&amp;D".toList headerTexts.flatten = "R&amp;D & <R&amp;D>".toList ∧
      headerCharacters? "A & B" = none := by
  decide +kernel

end Stencil.Watermark
