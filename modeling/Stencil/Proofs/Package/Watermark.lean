import Stencil.Proofs.Package.Archive
import Stencil.Proofs.Stamping.Text
import Stencil.Proofs.Text.Utf8

/-!
# What a watermark changes

A watermark is written into a single part of a package.  The part is cut at the bytes of the
watermark token, and the bytes of the watermark are put between the pieces; all other
entries keep their bytes and their places.
-/

namespace Stencil

/-- The package that a source hands over, if there is one. -/
def Source.package? : Source → Option Package
  | .memory package => some package
  | .file _ package => package

namespace Watermark

/-- The bytes of the watermark token. -/
def tokenBytes : Bytes :=
  Utf8.encode token

/-- Bytes in which a watermark stands in the place of every token: both are the same pieces,
in none of which the token stands, with the one or the other between them. -/
def IsStamped (watermark : String) (before after : Bytes) : Prop :=
  ∃ pieces, (∀ piece ∈ pieces, ¬tokenBytes <:+: piece) ∧
    before = Text.join tokenBytes pieces ∧
    after = Text.join (Utf8.encodeString watermark) pieces

/-- An archive that differs from another one in a single part, which is stamped. -/
structure StampsOnly (watermark part : String) (before after : Archive) : Prop where
  names_eq : after.names = before.names
  others_eq : ∀ name, name ≠ part → after.content? name = before.content? name
  stamped : ∃ content content', before.content? part = some content ∧
    after.content? part = some content' ∧ IsStamped watermark content content'

/-- What is written into a part that is text. -/
theorem isStamped_encode (watermark : String) (text : List Char) :
    IsStamped watermark (Utf8.encode text)
      (Utf8.encode (Text.replaceAll token watermark.toList text)) := by
  obtain ⟨pieces, _, free, text_eq, replaced_eq⟩ :=
    Text.exists_pieces token_ne_nil watermark.toList text
  refine ⟨pieces.map Utf8.encode, ?_, ?_, ?_⟩
  · intro bytes bytesMem stands
    rcases List.mem_map.mp bytesMem with ⟨piece, pieceMem, rfl⟩
    exact free piece pieceMem (Utf8.infix_of_encode_infix token_ne_nil stands)
  · rw [tokenBytes, ← Utf8.encode_join, ← text_eq]
  · rw [Utf8.encodeString, ← Utf8.encode_join, ← replaced_eq]

/-- What is written under a name when a part is stamped. -/
def contentAfter (archive : Archive) (part : String) (content : Bytes) (name : String) : Bytes :=
  if name == part then content else archive.contentOf name

/-- The archive with a content under the name of a part. -/
def withPart (archive : Archive) (part : String) (content : Bytes) : Archive where
  entries := archive.entries.map fun (name, _) => (name, contentAfter archive part content name)

section Part

variable {archive : Archive} {part : String} {content : Bytes}

theorem names_withPart (archive : Archive) (part : String) (content : Bytes) :
    (withPart archive part content).names = archive.names := by
  rw [Archive.names, withPart, List.map_map]
  rfl

theorem content?_withPart_of_ne {name : String} (other : name ≠ part) :
    (withPart archive part content).content? name = archive.content? name := by
  rw [withPart, Archive.content?_map_content, contentAfter, if_neg (by simpa using other),
    Archive.map_contentOf]

theorem content?_withPart (listed : part ∈ archive.names) :
    (withPart archive part content).content? part = some content := by
  rw [withPart, Archive.content?_map_content, Archive.content?_of_mem_names listed, contentAfter,
    if_pos (beq_self_eq_true part), Option.map_some]

theorem stampArchive_of_content {watermark : List Char}
    (stamps : stampContent watermark (archive.contentOf part) = some content) :
    stampArchive archive watermark part = .ok (withPart archive part content) := by
  rw [stampArchive, stamps]
  rfl

theorem stampsOnly_of_text {text : List Char} (watermark : String) (listed : part ∈ archive.names)
    (isText : Utf8.encode text = archive.contentOf part) :
    StampsOnly watermark part archive
      (withPart archive part (Utf8.encode (stampText watermark.toList text))) where
  names_eq := names_withPart archive part _
  others_eq := fun _ other => content?_withPart_of_ne other
  stamped := by
    refine ⟨_, _, Archive.content?_of_mem_names listed, content?_withPart listed, ?_⟩
    rw [← isText]
    exact isStamped_encode watermark text

end Part

/-- It does not matter how a package is handed over. -/
theorem stampSource_eq {source : Source} {package : Package}
    (handed : source.package? = some package) (watermark part : String) :
    stampSource source watermark part = stamp package watermark part := by
  cases source with
  | memory own =>
      cases handed
      rfl
  | file path own =>
      cases handed
      rfl

/-- A watermark is written into one part only.  A package that does not list the part stays as
it is.  Otherwise, when the part is text, all names keep their places, all other names their
bytes, and the part gets the watermark in the place of every token; when it is no text, the
watermark is refused. -/
theorem watermark_stamps_only {source : Source} {package : Package} {archive : Archive}
    (handed : source.package? = some package) (opened : package.archive? = some archive)
    (watermark part : String) :
    (part ∉ archive.names → stampSource source watermark part = .ok package) ∧
      (part ∈ archive.names →
        (∀ text, Utf8.encode text = archive.contentOf part →
          ∃ stamped, stampSource source watermark part = .ok (.archive stamped) ∧
            StampsOnly watermark part archive stamped) ∧
        ((∀ text, Utf8.encode text ≠ archive.contentOf part) →
          stampSource source watermark part = .error .notText)) := by
  rw [stampSource_eq handed, stamp, opened]
  refine ⟨fun unlisted => ?_, fun listed => ⟨fun text isText => ?_, fun noText => ?_⟩⟩
  · simp [Archive.lists, unlisted]
  · have stamps : stampContent watermark.toList (archive.contentOf part) =
        some (Utf8.encode (stampText watermark.toList text)) := by
      rw [stampContent, Utf8.decode?_eq_some_iff.mpr isText]
      rfl
    have written := stampArchive_of_content stamps
    exact ⟨_, by simp [Archive.lists, listed, written], stampsOnly_of_text watermark listed isText⟩
  · have undecoded : Utf8.decode? (archive.contentOf part) = none := by
      rw [Option.eq_none_iff_forall_ne_some]
      exact fun text decoded => noText text (Utf8.decode?_eq_some_iff.mp decoded)
    simp [Archive.lists, listed, stampArchive, stampContent, undecoded]

/-- An archive with names that are listed twice, and with a part for the watermark that begins
with a byte order mark. -/
def sampleArchive : Archive where
  entries := [
    ("a.bin", [0xFF]), ("word/header2.xml", []), ("a.bin", [0xFE]),
    ("word/header2.xml", Utf8.mark ++ Utf8.encodeString "\x7bWatermark\x7d é \x7bWatermark")]

/-- A file with the archive. -/
def sampleSource : Source :=
  .file "t.docx" (some (.archive sampleArchive))

theorem watermark_stamps_sampleArchive :
    (∃ stamped, stampSource sampleSource "ü" "word/header2.xml" = .ok (.archive stamped) ∧
      StampsOnly "ü" "word/header2.xml" sampleArchive stamped) ∧
      stampSource sampleSource "ü" "a.bin" = .error .notText ∧
      stampSource sampleSource "ü" "b.bin" = .ok (.archive sampleArchive) := by
  have headerText : Utf8.decode? (sampleArchive.contentOf "word/header2.xml") =
      some ("\uFEFF\x7bWatermark\x7d é \x7bWatermark".toList) := by decide +kernel
  have binaryText : Utf8.decode? (sampleArchive.contentOf "a.bin") = none := by decide +kernel
  have handed : sampleSource.package? = some (.archive sampleArchive) := rfl
  have stamps (part : String) := watermark_stamps_only handed rfl "ü" part
  refine ⟨?_, ?_, ?_⟩
  · exact ((stamps "word/header2.xml").2 (by decide)).1 _ (Utf8.decode?_eq_some_iff.mp headerText)
  · refine ((stamps "a.bin").2 (by decide)).2 fun text text_eq => ?_
    rw [Utf8.decode?_eq_some_iff.mpr text_eq] at binaryText
    cases binaryText
  · exact (stamps "b.bin").1 (by decide)

end Watermark

end Stencil
