import Stencil.Package.Watermark
import Stencil.Proofs.Text.Replace

/-!
# Stamped texts

The watermark token is a brace, letters and a brace, so that it neither begins nor ends in the
middle of what markup consists of.  A text can be cut at any other character: its parts hold the
tokens of the whole, and are stamped one by one.
-/

namespace Stencil

namespace Text

theorem unifyLineEnds_cons_of_ne {c : Char} (other : c ≠ '\r') (rest : List Char) :
    unifyLineEnds (c :: rest) = c :: unifyLineEnds rest := by
  rw [unifyLineEnds]
  · exact fun _ isReturn _ => other isReturn
  · exact other

theorem unifyLineEnds_return {rest : List Char} (alone : rest.head? ≠ some '\n') :
    unifyLineEnds ('\r' :: rest) = '\n' :: unifyLineEnds rest := by
  rw [unifyLineEnds]
  rintro behind rfl
  exact alone rfl

theorem unifyLineEnds_append {xs : List Char} (noReturn : '\r' ∉ xs) (rest : List Char) :
    unifyLineEnds (xs ++ rest) = xs ++ unifyLineEnds rest := by
  induction xs with
  | nil => rfl
  | cons x xs ih =>
      rw [List.mem_cons, not_or] at noReturn
      rw [List.cons_append, unifyLineEnds_cons_of_ne (Ne.symm noReturn.1), ih noReturn.2,
        List.cons_append]

/-- A text without line ends begins with the same text when line ends are written anew. -/
theorem prefix_unifyLineEnds_iff {xs : List Char} (noReturn : '\r' ∉ xs) (noFeed : '\n' ∉ xs)
    {cs : List Char} : xs <+: unifyLineEnds cs ↔ xs <+: cs := by
  induction xs generalizing cs with
  | nil => simp
  | cons x xs ih =>
      rw [List.mem_cons, not_or] at noReturn noFeed
      fun_cases unifyLineEnds cs with
      | case1 => rfl
      | case2 => simp [Ne.symm noReturn.1, Ne.symm noFeed.1, List.cons_prefix_cons]
      | case3 => simp [Ne.symm noReturn.1, Ne.symm noFeed.1, List.cons_prefix_cons]
      | case4 => simp [List.cons_prefix_cons, ih noReturn.2 noFeed.2]

end Text

namespace Watermark

/-- A text with a watermark in the place of every token. -/
def stampText (watermark text : List Char) : List Char :=
  Text.replaceAll token watermark text

/-- The number of tokens in a text. -/
def tokens (text : List Char) : Nat :=
  Text.occurrences token text

variable {watermark text xs rest : List Char} {c : Char}

theorem token_ne_nil : token ≠ [] :=
  List.cons_ne_nil _ _

theorem tokens_eq_zero_iff : tokens text = 0 ↔ ¬token <:+: text :=
  Text.occurrences_eq_zero_iff token_ne_nil

theorem tokens_le_append (xs rest : List Char) : tokens rest ≤ tokens (xs ++ rest) :=
  Text.occurrences_le_append xs rest

theorem stampText_of_tokens_eq_zero (watermark : List Char) (none : tokens text = 0) :
    stampText watermark text = text :=
  Text.replaceAll_of_occurrences_eq_zero none

/-- What is in front of all tokens stays as it is. -/
theorem stampText_append_of_tokens_le (watermark : List Char)
    (none : tokens (xs ++ rest) ≤ tokens rest) :
    stampText watermark (xs ++ rest) = xs ++ stampText watermark rest :=
  Text.replaceAll_append_of_beginsNowhere (Text.beginsNowhere_of_occurrences_le none)

/-- A token begins with its brace. -/
theorem not_token_prefix_cons (other : c ≠ '\x7b') (rest : List Char) : ¬token <+: c :: rest :=
  fun stands => other (List.cons_prefix_cons.mp stands).1.symm

theorem tokens_cons_of_ne (other : c ≠ '\x7b') (rest : List Char) :
    tokens (c :: rest) = tokens rest := by
  have elsewhere := not_token_prefix_cons other rest
  rw [← List.isPrefixOf_iff_prefix] at elsewhere
  rw [tokens, Text.occurrences_cons, if_neg elsewhere, Nat.zero_add, tokens]

theorem stampText_token_append (watermark rest : List Char) :
    stampText watermark (token ++ rest) = watermark ++ stampText watermark rest :=
  Text.replaceAll_pattern_append token_ne_nil rest

theorem stampText_cons_of_elsewhere (watermark : List Char) (other : ¬token <+: c :: rest) :
    stampText watermark (c :: rest) = c :: stampText watermark rest :=
  Text.replaceAll_cons_of_elsewhere other

theorem head?_stampText (other : ¬token <+: text) :
    (stampText watermark text).head? = text.head? := by
  cases text with
  | nil => rfl
  | cons x rest =>
      rw [stampText_cons_of_elsewhere watermark other, List.head?_cons, List.head?_cons]

theorem stampText_cons_of_ne (watermark : List Char) (other : c ≠ '\x7b') (rest : List Char) :
    stampText watermark (c :: rest) = c :: stampText watermark rest :=
  stampText_cons_of_elsewhere watermark (not_token_prefix_cons other rest)

theorem tokens_append_of_notMem (noBrace : '\x7b' ∉ xs) (rest : List Char) :
    tokens (xs ++ rest) = tokens rest := by
  induction xs with
  | nil => rfl
  | cons x xs ih =>
      rw [List.mem_cons, not_or] at noBrace
      rw [List.cons_append, tokens_cons_of_ne (Ne.symm noBrace.1), ih noBrace.2]

theorem stampText_append_of_notMem (watermark : List Char) (noBrace : '\x7b' ∉ xs)
    (rest : List Char) : stampText watermark (xs ++ rest) = xs ++ stampText watermark rest := by
  apply stampText_append_of_tokens_le
  rw [tokens_append_of_notMem noBrace]

@[simp]
theorem stampText_nil (watermark : List Char) : stampText watermark [] = [] :=
  rfl

theorem tokens_singleton (c : Char) : tokens [c] = 0 := by
  rw [tokens_eq_zero_iff]
  intro stands
  have short : token.length ≤ 1 := stands.length_le
  exact absurd short (by decide)

theorem mem_stampText (cMem : c ∈ stampText watermark text) : c ∈ text ∨ c ∈ watermark :=
  Text.mem_replaceAll token_ne_nil cMem

section Boundary

variable (boundary : ∀ x ∈ rest.head?, x ∉ token)

include boundary

theorem tokens_append : tokens (xs ++ rest) = tokens xs + tokens rest :=
  Text.occurrences_append boundary

theorem stampText_append (watermark : List Char) :
    stampText watermark (xs ++ rest) = stampText watermark xs ++ stampText watermark rest :=
  Text.replaceAll_append boundary token_ne_nil

omit xs in
theorem head?_stampText_of_boundary (watermark : List Char) :
    (stampText watermark rest).head? = rest.head? := by
  refine head?_stampText fun stands => ?_
  obtain ⟨behind, rfl⟩ := stands
  exact boundary _ rfl (by decide)

end Boundary

section LineEnds

theorem return_notMem_token : '\r' ∉ token := by decide

theorem feed_notMem_token : '\n' ∉ token := by decide

/-- When line ends are written anew, tokens stay where they are. -/
theorem tokens_unifyLineEnds (text : List Char) :
    tokens (Text.unifyLineEnds text) = tokens text := by
  fun_induction Text.unifyLineEnds text with
  | case1 => rfl
  | case2 rest ih =>
      rw [tokens_cons_of_ne (by decide), ih, tokens_cons_of_ne (by decide),
        tokens_cons_of_ne (by decide)]
  | case3 rest _ ih => rw [tokens_cons_of_ne (by decide), ih, tokens_cons_of_ne (by decide)]
  | case4 c rest pair single ih =>
      have same :
          token.isPrefixOf (c :: Text.unifyLineEnds rest) = token.isPrefixOf (c :: rest) := by
        rw [Bool.eq_iff_iff, List.isPrefixOf_iff_prefix, List.isPrefixOf_iff_prefix,
          ← Text.unifyLineEnds_cons_of_ne (fun isReturn => ?_) rest]
        · exact Text.prefix_unifyLineEnds_iff return_notMem_token feed_notMem_token
        · exact single isReturn
      rw [tokens, Text.occurrences_cons, same, ← tokens, ih, tokens, tokens, Text.occurrences_cons]

/-- Where a token stands behind a return, no line feed comes to stand. -/
def KeepsLineEnds (watermark text : List Char) : Prop :=
  ∀ behind, '\r' :: (token ++ behind) <:+ text →
    (stampText watermark (token ++ behind)).head? ≠ some '\n'

theorem KeepsLineEnds.of_suffix (keeps : KeepsLineEnds watermark text) (suffix : rest <:+ text) :
    KeepsLineEnds watermark rest :=
  fun behind stands => keeps behind (stands.trans suffix)

theorem keepsLineEnds_of_notMem (watermark : List Char) (noReturn : '\r' ∉ text) :
    KeepsLineEnds watermark text :=
  fun _ stands => absurd (stands.subset List.mem_cons_self) noReturn

/-- Line ends can be written anew before the watermark is put in, or afterwards. -/
theorem unifyLineEnds_stampText (noReturn : '\r' ∉ watermark)
    (keeps : KeepsLineEnds watermark text) :
    Text.unifyLineEnds (stampText watermark text) =
      stampText watermark (Text.unifyLineEnds text) := by
  induction text using Text.pattern_induction token_ne_nil with
  | nil => rfl
  | found rest ih =>
      have keepsRest := keeps.of_suffix (List.suffix_append token rest)
      rw [stampText_token_append, Text.unifyLineEnds_append noReturn,
        Text.unifyLineEnds_append return_notMem_token, stampText_token_append, ih keepsRest]
  | kept x rest other ih =>
      have rest_eq := ih (keeps.of_suffix (List.suffix_cons x rest))
      rw [stampText_cons_of_elsewhere watermark other]
      by_cases isReturn : x = '\r'
      · subst isReturn
        by_cases pair : rest.head? = some '\n'
        · obtain ⟨behind, rfl⟩ := List.head?_eq_some_iff.mp pair
          have feed : '\n' ≠ '\r' := by decide
          rw [stampText_cons_of_ne watermark (by decide), Text.unifyLineEnds_cons_of_ne feed,
            Text.unifyLineEnds_cons_of_ne feed] at rest_eq
          rw [stampText_cons_of_ne watermark (by decide), Text.unifyLineEnds, Text.unifyLineEnds,
            rest_eq]
        -- only a watermark could bring a line feed here, and none that does stands behind a return
        · have alone : (stampText watermark rest).head? ≠ some '\n' := by
            by_cases stands : token <+: rest
            · obtain ⟨behind, rfl⟩ := stands
              exact keeps behind List.suffix_rfl
            · rwa [head?_stampText stands]
          rw [Text.unifyLineEnds_return alone, Text.unifyLineEnds_return pair, rest_eq,
            stampText_cons_of_ne watermark (by decide)]
      · have other' : ¬token <+: x :: Text.unifyLineEnds rest := by
          rw [← Text.unifyLineEnds_cons_of_ne isReturn,
            Text.prefix_unifyLineEnds_iff return_notMem_token feed_notMem_token]
          exact other
        rw [Text.unifyLineEnds_cons_of_ne isReturn, Text.unifyLineEnds_cons_of_ne isReturn, rest_eq,
          stampText_cons_of_elsewhere watermark other']

end LineEnds

end Watermark

end Stencil
