import Stencil.Proofs.Xml.Reading
import Stencil.Xml.Declaration

/-!
# Documents in UTF-8

How a document is encoded is told by the bytes at its beginning and by what it declares in front
of the first bracket.  Bytes that are the same up to a bracket are read by the same encoding.
-/

namespace Stencil.Xml.Encoding

/-- The bytes with which documents in other encodings begin. -/
def otherMarks : List Bytes := [[0xFF, 0xFE], [0xFE, 0xFF], [0x3C, 0, 0x3F, 0], [0, 0x3C, 0, 0x3F]]

/-- The encoding that a document declares in front of the first bracket, if it does. -/
def declared? (bytes : Bytes) : Option (List Char) :=
  (Declaration.read ((bytes.takeWhile (· != 0x3E)).map latinChar ++ ['>'])).bind
    fun (declaration, _) => declaration.encoding

/-- The name of an encoding without regard to case. -/
def smallName (name : List Char) : String :=
  String.ofList (name.map fun c => if Text.isCapital c then Char.ofNat (c.toNat + 32) else c)

/-- Tells that a document is encoded in UTF-8: it has no mark of another encoding, and declares
none unless it has the mark of UTF-8. -/
structure IsUtf8 (bytes : Bytes) : Prop where
  noOther : ∀ mark ∈ otherMarks, ¬mark <+: bytes
  named : ¬Utf8.mark <+: bytes → ∀ name ∈ declared? bytes, smallName name ∈ ["utf-8", "utf8"]

variable {bytes front : Bytes}

theorem decode?_mark_append (bytes : Bytes) : decode? (Utf8.mark ++ bytes) = Utf8.decode? bytes :=
  rfl

theorem decodeNamed_of_small {name : List Char} (small : smallName name ∈ ["utf-8", "utf8"])
    (bytes : Bytes) : decodeNamed name bytes = Utf8.decode? bytes := by
  have found : decoders.find? (fun entry => entry.1.contains (smallName name)) =
      some (["utf-8", "utf8"], Utf8.decode?) :=
    List.find?_cons_of_pos (List.contains_iff_mem.mpr small)
  have named : decodeNamed name bytes =
      (decoders.find? fun entry => entry.1.contains (smallName name)).bind
        fun entry => entry.2 bytes := rfl
  rw [named, found, Option.bind_some]

theorem decode?_of_unmarked (utf8 : IsUtf8 bytes) (unmarked : ¬Utf8.mark <+: bytes) :
    decode? bytes = Utf8.decode? bytes := by
  unfold decode?
  split
  · next rest => exact absurd ⟨rest, rfl⟩ unmarked
  · next rest => exact absurd ⟨rest, rfl⟩ (utf8.noOther [0xFF, 0xFE] (by decide))
  · next rest => exact absurd ⟨rest, rfl⟩ (utf8.noOther [0xFE, 0xFF] (by decide))
  · next rest => exact absurd ⟨rest, rfl⟩ (utf8.noOther [0x3C, 0, 0x3F, 0] (by decide))
  · next rest => exact absurd ⟨rest, rfl⟩ (utf8.noOther [0, 0x3C, 0, 0x3F] (by decide))
  · split
    · next name rest declares =>
        have isDeclared : name ∈ declared? bytes :=
          Option.bind_eq_some_iff.mpr ⟨_, declares, rfl⟩
        exact decodeNamed_of_small (utf8.named unmarked name isDeclared) bytes
    · rfl

theorem takeWhile_append_of_mem {α : Type} {test : α → Bool} {xs : List α} {x : α} (xMem : x ∈ xs)
    (fails : test x = false) (rest : List α) :
    (xs ++ rest).takeWhile test = xs.takeWhile test := by
  obtain ⟨before, behind, rfl⟩ := List.append_of_mem xMem
  have stops (others : List α) : (x :: others).takeWhile test = [] :=
    List.takeWhile_cons_of_neg (Bool.not_eq_true _ ▸ fails)
  rw [List.append_assoc, List.cons_append, List.takeWhile_append, List.takeWhile_append, stops,
    stops]

theorem declared?_append (bracketMem : 0x3E ∈ front) (rest : Bytes) :
    declared? (front ++ rest) = declared? front := by
  rw [declared?, takeWhile_append_of_mem bracketMem (by decide), declared?]

theorem mark_prefix_append_iff (bracketMem : 0x3E ∈ front) (rest : Bytes) :
    Utf8.mark <+: front ++ rest ↔ Utf8.mark <+: front :=
  prefix_append_iff_of_mem bracketMem (by decide) rest

/-- The encoding does not depend on what stands behind the first bracket. -/
theorem isUtf8_append_iff (bracketMem : 0x3E ∈ front) (rest : Bytes) :
    IsUtf8 (front ++ rest) ↔ IsUtf8 front := by
  have others : ∀ mark ∈ otherMarks, (mark <+: front ++ rest ↔ mark <+: front) := by
    intro mark markMem
    have free : ∀ mark ∈ otherMarks, 0x3E ∉ mark := by decide
    exact prefix_append_iff_of_mem bracketMem (free mark markMem) rest
  constructor
  · rintro ⟨noOther, named⟩
    refine ⟨fun mark markMem => ?_, ?_⟩
    · exact mt (others mark markMem).mpr (noOther mark markMem)
    · rwa [mark_prefix_append_iff bracketMem, declared?_append bracketMem] at named
  · rintro ⟨noOther, named⟩
    refine ⟨fun mark markMem => ?_, ?_⟩
    · exact mt (others mark markMem).mp (noOther mark markMem)
    · rwa [mark_prefix_append_iff bracketMem, declared?_append bracketMem]

end Stencil.Xml.Encoding
