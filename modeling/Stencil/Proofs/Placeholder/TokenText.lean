import Stencil.Proofs.Placeholder.Nesting

/-!
# Tokens in any text

A text need not be that of a well-formed template.  A token of a key is still found exactly where
it stands with its whole text, and two tokens of different keys share no characters.  So every
text can be read along the tokens of a key, and what another key does between them or in their
place is judged piece by piece.
-/

namespace Stencil.Token

open Stencil.Text

variable {key value : List Char} {token : Segment}

/-- A token of a key: its name is the key. -/
structure IsTokenOf (key : List Char) (token : Segment) : Prop where
  proper : token.IsProper
  named : token.name? = some key

theorem IsTokenOf.of_doubled {inside : List Char} (isToken : IsTokenOf key (.doubled inside)) :
    IsTokenOf key (.token inside) :=
  ⟨isToken.proper, isToken.named⟩

theorem IsTokenOf.text_ne_nil {token : Segment} (isName : IsName key)
    (isToken : IsTokenOf key token) : token.text ≠ [] :=
  (tokenLength?_of_named isName isToken.proper isToken.named []).1

theorem IsTokenOf.tokenLength?_eq {token : Segment} (isName : IsName key)
    (isToken : IsTokenOf key token) (rest : List Char) :
    tokenLength? key (token.text ++ rest) = some token.text.length :=
  (tokenLength?_of_named isName isToken.proper isToken.named rest).2

/-- Where a token of a key is found, it stands with its whole text. -/
theorem tokenLength?_eq_some_iff (isName : IsName key) {cs : List Char} {length : Nat} :
    tokenLength? key cs = some length ↔
      ∃ token rest, IsTokenOf key token ∧ cs = token.text ++ rest ∧
        length = token.text.length := by
  constructor
  · intro found
    obtain ⟨inside, rest, braceFree, rfl, ⟨rfl, rfl⟩ | ⟨rfl, rfl⟩⟩ :=
      exists_of_tokenLength?_eq_some isName found
    · exact ⟨.token inside, rest, ⟨⟨braceFree, isName.ne_nil⟩, rfl⟩, by simp [Segment.text_token],
        by simp [Segment.text_token]⟩
    · exact ⟨.doubled inside, rest, ⟨⟨braceFree, isName.ne_nil⟩, rfl⟩,
        by simp [Segment.text_doubled], by simp [Segment.text_doubled]⟩
  · rintro ⟨token, rest, isToken, rfl, rfl⟩
    exact isToken.tokenLength?_eq isName rest

theorem tokenLength?_le (isName : IsName key) {cs : List Char} {length : Nat}
    (found : tokenLength? key cs = some length) : length ≤ cs.length := by
  obtain ⟨token, rest, _, rfl, rfl⟩ := (tokenLength?_eq_some_iff isName).mp found
  simp

/-- A token stays what it is when the text goes on. -/
theorem tokenLength?_append (isName : IsName key) {cs : List Char} {length : Nat}
    (found : tokenLength? key cs = some length) (rest : List Char) :
    tokenLength? key (cs ++ rest) = some length := by
  obtain ⟨token, behind, isToken, rfl, rfl⟩ := (tokenLength?_eq_some_iff isName).mp found
  exact (tokenLength?_eq_some_iff isName).mpr
    ⟨token, behind ++ rest, isToken, List.append_assoc .., rfl⟩

theorem holdsKey_text (isName : IsName key) {token : Segment} (isToken : IsTokenOf key token)
    (before after : List Char) : holdsKey key (before ++ (token.text ++ after)) = true := by
  induction before with
  | nil => simp [holdsKey_segment isName isToken.proper, isToken.named]
  | cons c before ih =>
      rw [List.cons_append, holdsKey, ih, Bool.or_true]

/-- A text without closing braces has no tokens. -/
theorem holdsKey_of_unclosed (isName : IsName key) {cs : List Char} (unclosed : closeBrace ∉ cs) :
    holdsKey key cs = false := by
  rw [← Bool.not_eq_true, holdsKey_eq_true_iff isName]
  rintro ⟨inside, ⟨before, after, rfl⟩, _⟩
  simp at unclosed

theorem holdsKey_infix (isName : IsName key) {cs : List Char} (held : holdsKey key cs = true)
    (before after : List Char) : holdsKey key (before ++ (cs ++ after)) = true := by
  rw [holdsKey_eq_true_iff isName] at held ⊢
  obtain ⟨inside, ⟨front, behind, rfl⟩, braceFree, named⟩ := held
  exact ⟨inside, ⟨before ++ front, behind ++ after, by simp⟩, braceFree, named⟩

/-- What follows a text matters to the tokens that begin with it only if one reaches there. -/
theorem tokenLength?_append_eq (isName : IsName key) {before behind : List Char}
    (noneReaches : ∀ token part rest, IsTokenOf key token → token.text = before ++ part →
      part ≠ [] → behind ≠ part ++ rest) :
    tokenLength? key (before ++ behind) = tokenLength? key before := by
  cases found : tokenLength? key before with
  | some length => exact tokenLength?_append isName found _
  | none =>
      rw [Option.eq_none_iff_forall_ne_some]
      intro length reaching
      obtain ⟨token, rest, isToken, text_eq, _⟩ := (tokenLength?_eq_some_iff isName).mp reaching
      have longer (more : List Char) : before ≠ token.text ++ more := by
        rintro rfl
        have inside := isToken.tokenLength?_eq isName more
        rw [inside] at found
        cases found
      rcases List.append_eq_append_iff.mp text_eq with
        ⟨part, token_eq, behind_eq⟩ | ⟨more, before_eq, _⟩
      · refine noneReaches token part rest isToken token_eq ?_ behind_eq
        rintro rfl
        exact longer [] (by rw [token_eq, List.append_nil, List.append_nil])
      · exact longer more before_eq

theorem IsTokenOf.text_eq_cons {token : Segment} (isToken : IsTokenOf key token) :
    ∃ behind, token.text = openBrace :: behind := by
  cases token with
  | literal text => cases isToken.named
  | token inside => exact ⟨_, rfl⟩
  | doubled inside => exact ⟨_, rfl⟩

/-- A token has no second opening brace but that of double braces. -/
theorem IsTokenOf.exists_inside {token : Segment} (isToken : IsTokenOf key token)
    {before behind : List Char} (filled : before ≠ [])
    (text_eq : token.text = before ++ openBrace :: behind) :
    ∃ inside, IsTokenOf key (.token inside) ∧
      openBrace :: behind = (Segment.token inside).text ++ [closeBrace] := by
  rcases List.exists_cons_of_ne_nil filled with ⟨c, others, rfl⟩
  have notInside {inside closing front : List Char} (braceFree : BraceFree inside)
      (isClosing : IsClosing closing) : inside ++ closing ≠ front ++ openBrace :: behind := by
    intro inside_eq
    have opening : openBrace ∈ inside ++ closing := by simp [inside_eq]
    rcases List.mem_append.mp opening with inName | inClosing
    · exact braceFree.openBrace_notMem inName
    · exact closeBrace_ne_openBrace (isClosing.all_close _ inClosing).symm
  cases token with
  | literal text => cases isToken.named
  | token inside =>
      exact absurd (List.cons.inj text_eq).2 (notInside isToken.proper.1 isClosing_single)
  | doubled inside =>
      have rest_eq := (List.cons.inj text_eq).2
      cases others with
      | nil =>
          refine ⟨inside, isToken.of_doubled, ?_⟩
          rw [← show _ = openBrace :: behind from rest_eq]
          simp [Segment.text_token]
      | cons d others =>
          exact absurd (List.cons.inj rest_eq).2 (notInside isToken.proper.1 isClosing_double)

/-- No token of a key begins in a text, and none reaches into it. -/
structure IsApart (key value : List Char) : Prop where
  noneBegins : ∀ after, NoneBegins key value after
  noneReaches : ∀ before, before ≠ [] → ∀ after,
    tokenLength? key (before ++ (value ++ after)) = tokenLength? key before

/-- Tokens of different keys share no characters. -/
theorem IsTokenOf.isApart {other : List Char} {token : Segment} (isName : IsName key)
    (isToken : IsTokenOf other token) (differs : key ≠ other) : IsApart key token.text := by
  have noneBegins (after : List Char) : NoneBegins key token.text after := by
    apply noneBegins_of_not_named isName isToken.proper
    rw [isToken.named]
    simpa using differs.symm
  refine ⟨noneBegins, ?_⟩
  intro before filled after
  apply tokenLength?_append_eq isName
  intro reached part rest isReached reached_eq partFilled token_eq
  obtain ⟨behind, text_eq⟩ := isToken.text_eq_cons
  rcases List.exists_cons_of_ne_nil partFilled with ⟨c, others, rfl⟩
  obtain rfl : c = openBrace := by
    rw [text_eq] at token_eq
    exact (List.cons.inj token_eq).1.symm
  obtain ⟨inside, isInside, part_eq⟩ := isReached.exists_inside filled reached_eq
  have begins : tokenLength? key (token.text ++ after) = some (Segment.token inside).text.length := by
    rw [token_eq, part_eq, List.append_assoc]
    exact isInside.tokenLength?_eq isName _
  rw [noneBegins after token.text List.suffix_rfl (by simp [text_eq])] at begins
  cases begins

/-- A text apart from a key parts the tokens before it from those behind it. -/
theorem IsApart.holdsKey_append (apart : IsApart key value) (before after : List Char) :
    holdsKey key (before ++ (value ++ after)) = (holdsKey key before || holdsKey key after) := by
  induction before with
  | nil => exact holdsKey_of_noneBegins (apart.noneBegins after)
  | cons c before ih =>
      have here := apart.noneReaches (c :: before) (List.cons_ne_nil c before) after
      rw [List.cons_append] at here ⊢
      rw [holdsKey, here, ih, holdsKey, Bool.or_assoc]

/-- In a text that has a token of a key there is a first one. -/
theorem exists_first_token (isName : IsName key) (cs : List Char) :
    NoneBegins key cs [] ∨ ∃ front token rest, IsTokenOf key token ∧
      NoneBegins key front (token.text ++ rest) ∧ cs = front ++ (token.text ++ rest) := by
  induction cs with
  | nil => exact .inl (noneBegins_of_openBrace_notMem List.not_mem_nil [])
  | cons c cs ih =>
      cases found : tokenLength? key (c :: cs) with
      | some length =>
          obtain ⟨token, rest, isToken, text_eq, _⟩ := (tokenLength?_eq_some_iff isName).mp found
          exact .inr ⟨[], token, rest, isToken,
            noneBegins_of_openBrace_notMem List.not_mem_nil _, text_eq⟩
      | none =>
          rcases ih with noneBegins | ⟨front, token, rest, isToken, noneBegins, rfl⟩
          · exact .inl (noneBegins.cons (by rwa [List.append_nil]))
          · exact .inr ⟨c :: front, token, rest, isToken, noneBegins.cons found, rfl⟩

/-- Induction on a text along the tokens of a key. -/
theorem token_induction {motive : List Char → Prop} (isName : IsName key)
    (plain : ∀ cs, NoneBegins key cs [] → motive cs)
    (token : ∀ front token rest, IsTokenOf key token → NoneBegins key front (token.text ++ rest) →
      motive rest → motive (front ++ (token.text ++ rest)))
    (cs : List Char) : motive cs := by
  rcases exists_first_token isName cs with
    noneBegins | ⟨front, first, rest, isToken, noneBegins, cs_eq⟩
  · exact plain cs noneBegins
  · have filled := List.length_pos_iff.mpr
      (isToken.text_ne_nil isName)
    have shorter : rest.length < cs.length := by
      rw [cs_eq, List.length_append, List.length_append]
      omega
    rw [cs_eq]
    exact token front first rest isToken noneBegins (token_induction isName plain token rest)
termination_by cs.length
decreasing_by exact shorter

/-- What replacing a key comes to at its first token. -/
theorem IsTokenOf.replaceKey_eq (isName : IsName key) {token : Segment}
    (isToken : IsTokenOf key token) {front rest : List Char}
    (noneBegins : NoneBegins key front (token.text ++ rest)) :
    replaceKey key value (front ++ (token.text ++ rest)) =
      front ++ (value ++ replaceKey key value rest) := by
  rw [replaceKey_of_noneBegins noneBegins,
    replaceKey_of_found (isToken.text_ne_nil isName) (isToken.tokenLength?_eq isName rest)]

theorem replaceKey_of_noneBegins_nil {cs : List Char} (noneBegins : NoneBegins key cs []) :
    replaceKey key value cs = cs := by
  have kept : replaceKey key value (cs ++ []) = cs ++ replaceKey key value [] :=
    replaceKey_of_noneBegins noneBegins
  simpa [replaceKey, replaceKeyFrom] using kept

/-- Replacing a key by a text apart from another key leaves the tokens of that key alone. -/
theorem holdsKey_replaceKey {other : List Char} (isName : IsName key) (otherName : IsName other)
    (differs : other ≠ key) (apart : IsApart other value) (cs : List Char) :
    holdsKey other (replaceKey key value cs) = holdsKey other cs := by
  induction cs using token_induction isName with
  | plain cs noneBegins => rw [replaceKey_of_noneBegins_nil noneBegins]
  | token front token rest isToken noneBegins ih =>
      rw [isToken.replaceKey_eq isName noneBegins, apart.holdsKey_append, ih,
        (isToken.isApart otherName differs).holdsKey_append]

/-- A token between double braces is replaced alone where no closing brace is before it and no
opening brace behind it. -/
theorem IsTokenOf.replaceKey_alone (isName : IsName key) {inside before after : List Char}
    (isToken : IsTokenOf key (.doubled inside)) (unclosed : closeBrace ∉ before)
    (unopened : openBrace ∉ after) :
    replaceKey key value (before ++ ((Segment.doubled inside).text ++ after)) =
      before ++ (value ++ after) := by
  have noneBegins : NoneBegins key before ((Segment.doubled inside).text ++ after) := by
    intro suffix isSuffix filled
    have suffix_none : tokenLength? key suffix = none := by
      rw [Option.eq_none_iff_forall_ne_some]
      intro length found
      obtain ⟨token, rest, isOther, rfl, _⟩ := (tokenLength?_eq_some_iff isName).mp found
      have held := holdsKey_text isName isOther [] rest
      rw [List.nil_append, holdsKey_of_unclosed isName (mt (isSuffix.subset ·) unclosed)] at held
      cases held
    rw [← suffix_none]
    apply tokenLength?_append_eq isName
    intro token part rest isOther token_eq partFilled behind_eq
    rcases List.exists_cons_of_ne_nil partFilled with ⟨c, others, rfl⟩
    obtain rfl : openBrace = c := (List.cons.inj behind_eq).1
    obtain ⟨inner, isInner, inner_eq⟩ := isOther.exists_inside filled token_eq
    rw [inner_eq] at behind_eq
    -- behind its first opening brace the one token has another one, and the other its name
    have names_eq : openBrace :: (inside ++ [closeBrace, closeBrace] ++ after) =
        inner ++ ([closeBrace] ++ [closeBrace] ++ rest) := by
      simpa [Segment.text_doubled, Segment.text_token] using behind_eq
    rcases List.exists_cons_of_ne_nil (ne_nil_of_trim_ne_nil isInner.proper.2) with ⟨d, name, rfl⟩
    obtain rfl : openBrace = d := (List.cons.inj names_eq).1
    exact isInner.proper.1.openBrace_notMem List.mem_cons_self
  rw [isToken.replaceKey_eq isName noneBegins, replaceKey_of_plain unopened]

/-- A token is one of one key only. -/
theorem key_unique {first second : List Char} (firstName : IsName first)
    (secondName : IsName second) {cs : List Char} {length length' : Nat}
    (firstFound : tokenLength? first cs = some length)
    (secondFound : tokenLength? second cs = some length') : first = second := by
  by_contra differs
  obtain ⟨token, rest, isToken, rfl, _⟩ := (tokenLength?_eq_some_iff firstName).mp firstFound
  have none_eq := (isToken.isApart secondName (Ne.symm differs)).noneBegins rest token.text
    List.suffix_rfl (isToken.text_ne_nil firstName)
  rw [none_eq] at secondFound
  cases secondFound

end Stencil.Token
