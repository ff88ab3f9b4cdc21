import Stencil.Proofs.Placeholder.Inert

/-!
# Replacing all keys at once

In one pass over a text every token of a key gives way to the value of the key, and what has been
written is not read again.  Replacing one key after the other comes to the same where no value is
part of a token of another key.  In one pass the order of the keys does not matter.
-/

namespace Stencil.Token

variable {value : List Char}

/-- The values are inert towards the keys of the others. -/
def AreInert (values : Values) : Prop :=
  ∀ entry ∈ values, ∀ other ∈ values, entry.1 ≠ other.1 →
    IsInert other.1.toList entry.2.toList

/-- Values without braces are inert when each has a character, no blank, that the other keys lack. -/
theorem areInert_of_foreign {values : Values} (names : ∀ entry ∈ values, IsName entry.1.toList)
    (braceFree : ∀ entry ∈ values, BraceFree entry.2.toList)
    (foreign : ∀ entry ∈ values, ∀ other ∈ values, entry.1 ≠ other.1 →
      ∃ c ∈ entry.2.toList, Text.isBlank c = false ∧ c ∉ other.1.toList) : AreInert values := by
  intro entry entryMem other otherMem differs
  obtain ⟨c, cMem, notBlank, lacking⟩ := foreign entry entryMem other otherMem differs
  exact isInert_of_foreign (names other otherMem) (braceFree entry entryMem) cMem notBlank lacking

/-- The length of the token that begins here and the value for it. -/
def entryAt? (values : Values) (cs : List Char) : Option (Nat × List Char) :=
  values.findSome? fun entry => (tokenLength? entry.1.toList cs).map (·, entry.2.toList)

/-- Replaces tokens while `pending` characters of the token met last are still to be passed
over. -/
def replaceAtOnceFrom (values : Values) : (pending : Nat) → List Char → List Char
  | _, [] => []
  | pending + 1, _ :: rest => replaceAtOnceFrom values pending rest
  | 0, c :: rest =>
    match entryAt? values (c :: rest) with
    | some (length, value) => value ++ replaceAtOnceFrom values (length - 1) rest
    | none => c :: replaceAtOnceFrom values 0 rest

/-- Replaces the tokens of all keys in one pass, in which no value is read. -/
def replaceAtOnce (values : Values) (cs : List Char) : List Char :=
  replaceAtOnceFrom values 0 cs

variable {values : Values}

theorem entryAt?_cons (entry : String × String) (rest : Values) (cs : List Char) :
    entryAt? (entry :: rest) cs =
      ((tokenLength? entry.1.toList cs).map (·, entry.2.toList)).or (entryAt? rest cs) := by
  rw [entryAt?, List.findSome?_cons]
  cases tokenLength? entry.1.toList cs <;> rfl

theorem entryAt?_of_apart {before : List Char}
    (apart : ∀ entry ∈ values, IsApart entry.1.toList value) (filled : before ≠ [])
    (after : List Char) : entryAt? values (before ++ (value ++ after)) = entryAt? values before := by
  induction values with
  | nil => rfl
  | cons entry rest ih =>
      rcases List.forall_mem_cons.mp apart with ⟨here, later⟩
      rw [entryAt?_cons, entryAt?_cons, here.noneReaches before filled after, ih later]

theorem entryAt?_eq_none {cs : List Char}
    (noneBegins : ∀ entry ∈ values, tokenLength? entry.1.toList cs = none) :
    entryAt? values cs = none := by
  rw [entryAt?, List.findSome?_eq_none_iff]
  intro entry entryMem
  rw [noneBegins entry entryMem]
  rfl

theorem entryAt?_length_le (names : ∀ entry ∈ values, IsName entry.1.toList) {cs : List Char}
    {length : Nat} (found : entryAt? values cs = some (length, value)) : length ≤ cs.length := by
  obtain ⟨entry, entryMem, entry_eq⟩ := List.exists_of_findSome?_eq_some found
  obtain ⟨own, own_eq, same⟩ := Option.map_eq_some_iff.mp entry_eq
  obtain ⟨rfl, _⟩ := Prod.mk.inj same
  exact tokenLength?_le (names entry entryMem) own_eq

/-- A text the tokens of which end before a second one is replaced on its own. -/
theorem replaceAtOnceFrom_append {values' : Values} {front behind : List Char}
    (names : ∀ entry ∈ values', IsName entry.1.toList)
    (same : ∀ suffix, suffix <:+ front → suffix ≠ [] →
      entryAt? values (suffix ++ behind) = entryAt? values' suffix)
    {pending : Nat} (within : pending ≤ front.length) :
    replaceAtOnceFrom values pending (front ++ behind) =
      replaceAtOnceFrom values' pending front ++ replaceAtOnce values behind := by
  induction front generalizing pending with
  | nil =>
      obtain rfl := Nat.le_zero.mp within
      rfl
  | cons c front ih =>
      have later := @ih fun suffix isSuffix => same suffix (isSuffix.trans (List.suffix_cons c front))
      cases pending with
      | succ pending => exact later (Nat.le_of_succ_le_succ within)
      | zero =>
          have here := same (c :: front) List.suffix_rfl (List.cons_ne_nil c front)
          rw [List.cons_append] at here ⊢
          rw [replaceAtOnceFrom, replaceAtOnceFrom, here]
          split
          · next length value found =>
              have length_le := entryAt?_length_le names found
              rw [later (Nat.sub_le_of_le_add length_le), List.append_assoc]
          · rw [later (Nat.zero_le _), List.cons_append]

theorem replaceAtOnce_nil (cs : List Char) : replaceAtOnce [] cs = cs := by
  induction cs with
  | nil => rfl
  | cons c cs ih => exact congrArg (c :: ·) ih

theorem replaceAtOnceFrom_length (passed rest : List Char) :
    replaceAtOnceFrom values passed.length (passed ++ rest) = replaceAtOnce values rest := by
  induction passed with
  | nil => rfl
  | cons c passed ih => exact ih

theorem replaceAtOnce_of_found {cs rest : List Char} (filled : cs ≠ [])
    (found : entryAt? values (cs ++ rest) = some (cs.length, value)) :
    replaceAtOnce values (cs ++ rest) = value ++ replaceAtOnce values rest := by
  rcases List.exists_cons_of_ne_nil filled with ⟨c, others, rfl⟩
  rw [List.cons_append] at found ⊢
  simp only [replaceAtOnce, replaceAtOnceFrom, found, List.length_cons, Nat.add_sub_cancel]
  rw [replaceAtOnceFrom_length, replaceAtOnce]

/-- A text apart from the keys parts what is before it from what is behind it. -/
theorem replaceAtOnce_of_apart (names : ∀ entry ∈ values, IsName entry.1.toList)
    (apart : ∀ entry ∈ values, IsApart entry.1.toList value) (before after : List Char) :
    replaceAtOnce values (before ++ (value ++ after)) =
      replaceAtOnce values before ++ (value ++ replaceAtOnce values after) := by
  have value_eq : replaceAtOnce values (value ++ after) = value ++ replaceAtOnce values after := by
    have nothing : ∀ suffix, suffix <:+ value → suffix ≠ [] →
        entryAt? values (suffix ++ after) = entryAt? [] suffix := fun suffix isSuffix filled =>
      entryAt?_eq_none fun entry entryMem =>
        (apart entry entryMem).noneBegins after suffix isSuffix filled
    have kept := replaceAtOnceFrom_append (by simp) nothing (Nat.zero_le _)
    rwa [← replaceAtOnce, ← replaceAtOnce, replaceAtOnce_nil] at kept
  rw [← value_eq]
  exact replaceAtOnceFrom_append names
    (fun suffix _ filled => entryAt?_of_apart apart filled after) (Nat.zero_le _)

/-- The first key might as well be replaced before the others. -/
theorem replaceAtOnce_cons {entry : String × String} {rest : Values}
    (names : ∀ other ∈ entry :: rest, IsName other.1.toList) (new : entry.1 ∉ rest.map (·.1))
    (apart : ∀ other ∈ rest, IsApart other.1.toList entry.2.toList) (cs : List Char) :
    replaceAtOnce (entry :: rest) cs =
      replaceAtOnce rest (replaceKey entry.1.toList entry.2.toList cs) := by
  rcases List.forall_mem_cons.mp names with ⟨isName, restNames⟩
  -- where no token of the first key begins, the key makes no difference
  have skip {front behind : List Char} (noneBegins : NoneBegins entry.1.toList front behind) :
      ∀ suffix, suffix <:+ front → suffix ≠ [] →
        entryAt? (entry :: rest) (suffix ++ behind) = entryAt? rest (suffix ++ behind) := by
    intro suffix isSuffix filled
    rw [entryAt?_cons, noneBegins suffix isSuffix filled]
    rfl
  induction cs using token_induction isName with
  | plain cs noneBegins =>
      rw [replaceKey_of_noneBegins_nil noneBegins]
      have skips : ∀ suffix, suffix <:+ cs → suffix ≠ [] →
          entryAt? (entry :: rest) (suffix ++ []) = entryAt? rest suffix := by
        intro suffix isSuffix filled
        rw [skip noneBegins suffix isSuffix filled, List.append_nil]
      have same := replaceAtOnceFrom_append restNames skips (Nat.zero_le cs.length)
      simpa [replaceAtOnce, replaceAtOnceFrom] using same
  | token front token behind isToken noneBegins ih =>
      have filled := isToken.text_ne_nil isName
      have found := isToken.tokenLength?_eq isName behind
      have tokenApart : ∀ other ∈ rest, IsApart other.1.toList token.text := by
        intro other otherMem
        refine isToken.isApart (restNames other otherMem) ?_
        intro same
        exact new (String.toList_injective same ▸ List.mem_map_of_mem otherMem)
      -- no token of another key reaches from the front into this one
      have front_eq := replaceAtOnceFrom_append restNames (fun suffix isSuffix filled => by
        rw [skip noneBegins suffix isSuffix filled, entryAt?_of_apart tokenApart filled])
        (Nat.zero_le front.length)
      have token_eq : replaceAtOnce (entry :: rest) (token.text ++ behind) =
          entry.2.toList ++ replaceAtOnce (entry :: rest) behind := by
        apply replaceAtOnce_of_found filled
        rw [entryAt?_cons, found]
        rfl
      rw [isToken.replaceKey_eq isName noneBegins, replaceAtOnce_of_apart restNames apart, ← ih,
        ← token_eq]
      exact front_eq

/-- Values to be put in: names as keys, each of them once. -/
structure Values.AreNamed (values : Values) : Prop where
  names : ∀ entry ∈ values, IsName entry.1.toList
  nodup : (values.map (·.1)).Nodup

theorem Values.AreNamed.perm {values values' : Values} (named : values.AreNamed)
    (perm : values'.Perm values) : values'.AreNamed where
  names := fun entry entryMem => named.names entry (perm.mem_iff.mp entryMem)
  nodup := (perm.map _).nodup_iff.mpr named.nodup

theorem Values.AreNamed.of_cons {entry : String × String} {rest : Values}
    (named : Values.AreNamed (entry :: rest)) :
    IsName entry.1.toList ∧ entry.1 ∉ rest.map (·.1) ∧ Values.AreNamed rest := by
  rcases List.forall_mem_cons.mp named.names with ⟨isName, restNames⟩
  rcases List.nodup_cons.mp named.nodup with ⟨new, restNodup⟩
  exact ⟨isName, new, restNames, restNodup⟩

theorem AreInert.perm {values values' : Values} (inert : AreInert values)
    (perm : values'.Perm values) : AreInert values' :=
  fun entry entryMem other otherMem =>
    inert entry (perm.mem_iff.mp entryMem) other (perm.mem_iff.mp otherMem)

theorem AreInert.of_cons {entry : String × String} {rest : Values}
    (inert : AreInert (entry :: rest)) (named : Values.AreNamed (entry :: rest)) :
    (∀ other ∈ rest, IsApart other.1.toList entry.2.toList) ∧ AreInert rest := by
  obtain ⟨_, new, restNamed⟩ := named.of_cons
  constructor
  · intro other otherMem
    have differs : entry.1 ≠ other.1 := fun same => new (same ▸ List.mem_map_of_mem otherMem)
    exact (inert entry List.mem_cons_self other (List.mem_cons_of_mem _ otherMem) differs).isApart
      (restNamed.names other otherMem)
  · exact fun first firstMem other otherMem =>
      inert first (List.mem_cons_of_mem _ firstMem) other (List.mem_cons_of_mem _ otherMem)

/-- The entry that is found does not depend on the order. -/
theorem entryAt?_eq_some_iff (named : values.AreNamed) {cs : List Char} {length : Nat} :
    entryAt? values cs = some (length, value) ↔
      ∃ entry ∈ values, tokenLength? entry.1.toList cs = some length ∧
        entry.2.toList = value := by
  constructor
  · intro found
    obtain ⟨entry, entryMem, entry_eq⟩ := List.exists_of_findSome?_eq_some found
    obtain ⟨own, own_eq, same⟩ := Option.map_eq_some_iff.mp entry_eq
    obtain ⟨rfl, value_eq⟩ := Prod.mk.inj same
    exact ⟨entry, entryMem, own_eq, value_eq⟩
  · rintro ⟨entry, entryMem, found, value_eq⟩
    induction values with
    | nil => cases entryMem
    | cons first rest ih =>
        obtain ⟨firstName, new, restNamed⟩ := named.of_cons
        rcases List.mem_cons.mp entryMem with rfl | later
        · rw [entryAt?_cons, found, ← value_eq]
          rfl
        · have differs : entry.1 ≠ first.1 := fun same => new (same ▸ List.mem_map_of_mem later)
          have skipped : tokenLength? first.1.toList cs = none := by
            rw [Option.eq_none_iff_forall_ne_some]
            intro other otherFound
            exact differs (String.toList_injective
              (key_unique (restNamed.names entry later) firstName found otherFound))
          rw [entryAt?_cons, skipped, ih restNamed later]
          rfl

theorem entryAt?_eq_of_perm {values' : Values} (named : values.AreNamed)
    (perm : values'.Perm values) (cs : List Char) : entryAt? values' cs = entryAt? values cs := by
  apply Option.ext
  rintro ⟨length, value⟩
  simp only [entryAt?_eq_some_iff named, entryAt?_eq_some_iff (named.perm perm), perm.mem_iff]

/-- In one pass the order of the keys does not matter. -/
theorem replaceAtOnce_eq_of_perm {values' : Values} (named : values.AreNamed)
    (perm : values'.Perm values) (cs : List Char) :
    replaceAtOnce values' cs = replaceAtOnce values cs := by
  have entries : ∀ suffix, suffix <:+ cs → suffix ≠ [] →
      entryAt? values' (suffix ++ []) = entryAt? values suffix := by
    intro suffix _ _
    rw [entryAt?_eq_of_perm named perm, List.append_nil]
  have same := replaceAtOnceFrom_append named.names entries (Nat.zero_le cs.length)
  simpa [replaceAtOnce, replaceAtOnceFrom] using same

/-- Replacing inert values one after the other replaces them at once. -/
theorem replaceAllKeys_eq_replaceAtOnce (named : values.AreNamed) (inert : AreInert values)
    (cs : List Char) : replaceAllKeys values cs = replaceAtOnce values cs := by
  induction values generalizing cs with
  | nil => exact (replaceAtOnce_nil cs).symm
  | cons entry rest ih =>
      obtain ⟨_, new, restNamed⟩ := named.of_cons
      obtain ⟨apart, restInert⟩ := inert.of_cons named
      rw [replaceAtOnce_cons named.names new apart]
      exact ih restNamed restInert _

/-- The keys found are those with a token in the text as it was. -/
theorem keysFound_eq_filter (named : values.AreNamed) (inert : AreInert values)
    (cs : List Char) :
    keysFound values cs = (values.map (·.1)).filter fun key => holdsKey key.toList cs := by
  induction values generalizing cs with
  | nil => rfl
  | cons entry rest ih =>
      obtain ⟨isName, new, restNamed⟩ := named.of_cons
      obtain ⟨apart, restInert⟩ := inert.of_cons named
      have later : keysFound rest (replaceKey entry.1.toList entry.2.toList cs) =
          (rest.map (·.1)).filter fun key => holdsKey key.toList cs := by
        rw [ih restNamed restInert]
        apply List.filter_congr
        intro key keyMem
        obtain ⟨other, otherMem, rfl⟩ := List.mem_map.mp keyMem
        refine holdsKey_replaceKey isName (restNamed.names other otherMem) ?_
          (apart other otherMem) cs
        intro same
        exact new (String.toList_injective same ▸ keyMem)
      rw [keysFound, later, List.map_cons, List.filter_cons]

end Stencil.Token
