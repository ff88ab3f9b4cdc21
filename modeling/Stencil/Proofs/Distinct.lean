import Mathlib.Data.List.Induction
import Mathlib.Data.List.Nodup
import Mathlib.Data.List.Perm.Basic

/-!
# Lists without repeats

Names are collected one after the other, and a name that is there already is passed
over.  Every name is then there once, in the order of first places, and names that were
collected before may be collected again.  Entries that are put under new names only are
collected as they come, and each is found under its name.
-/

namespace Stencil

/-- Adds a name that is not there yet. -/
def addNew (seen : List String) (name : String) : List String :=
  if seen.contains name then seen else seen ++ [name]

/-- Adds several names. -/
def addAllNew (seen names : List String) : List String :=
  names.foldl addNew seen

theorem addAllNew_cons (seen : List String) (name : String) (rest : List String) :
    addAllNew seen (name :: rest) = addAllNew (addNew seen name) rest :=
  rfl

theorem addAllNew_append (seen names more : List String) :
    addAllNew seen (names ++ more) = addAllNew (addAllNew seen names) more :=
  List.foldl_append

theorem mem_addNew {seen : List String} {name other : String} :
    other ∈ addNew seen name ↔ other ∈ seen ∨ other = name := by
  unfold addNew
  split
  · next old =>
      constructor
      · exact .inl
      · rintro (inSeen | rfl)
        · exact inSeen
        · simpa using old
  · simp

theorem nodup_addNew {seen : List String} (nodup : seen.Nodup) (name : String) :
    (addNew seen name).Nodup := by
  unfold addNew
  split
  · exact nodup
  · next new =>
      rw [List.nodup_append]
      refine ⟨nodup, List.nodup_singleton name, ?_⟩
      rintro other otherMem same sameMem rfl
      rw [List.mem_singleton.mp sameMem] at otherMem
      exact new (by simpa using otherMem)

@[simp]
theorem mem_addAllNew {seen names : List String} {other : String} :
    other ∈ addAllNew seen names ↔ other ∈ seen ∨ other ∈ names := by
  induction names generalizing seen with
  | nil => simp [addAllNew]
  | cons name rest ih => rw [addAllNew_cons, ih, mem_addNew, List.mem_cons, or_assoc]

theorem nodup_addAllNew {seen : List String} (nodup : seen.Nodup) (names : List String) :
    (addAllNew seen names).Nodup := by
  induction names generalizing seen with
  | nil => exact nodup
  | cons name rest ih => exact ih (nodup_addNew nodup name)

theorem addNew_of_mem {seen : List String} {name : String} (old : name ∈ seen) :
    addNew seen name = seen := by
  simp [addNew, old]

theorem addNew_of_notMem {seen : List String} {name : String} (new : name ∉ seen) :
    addNew seen name = seen ++ [name] := by
  simp [addNew, new]

theorem addAllNew_addNew (seen names : List String) (name : String) :
    addAllNew seen (addNew names name) = addNew (addAllNew seen names) name := by
  by_cases old : name ∈ names
  · rw [addNew_of_mem old, addNew_of_mem (mem_addAllNew.mpr (.inr old))]
  · rw [addNew_of_notMem old, addAllNew_append]
    rfl

/-- Collecting what was collected is collecting it all. -/
theorem addAllNew_addAllNew (seen names more : List String) :
    addAllNew seen (addAllNew names more) = addAllNew (addAllNew seen names) more := by
  induction more generalizing names with
  | nil => rfl
  | cons name rest ih => rw [addAllNew_cons, ih, addAllNew_addNew, addAllNew_cons]

/-- Names are collected in the order of their first places. -/
theorem pairwise_idxOf_addAllNew (names : List String) :
    (addAllNew [] names).Pairwise fun first second => names.idxOf first < names.idxOf second := by
  induction names using List.reverseRecOn with
  | nil => exact .nil
  | append_singleton names name ih =>
      have before : (addAllNew [] names).Pairwise fun first second =>
          (names ++ [name]).idxOf first < (names ++ [name]).idxOf second := by
        refine ih.imp_of_mem fun firstMem secondMem less => ?_
        simp only [mem_addAllNew, List.not_mem_nil, false_or] at firstMem secondMem
        rwa [List.idxOf_append_of_mem firstMem, List.idxOf_append_of_mem secondMem]
      rw [addAllNew_append, addAllNew_cons]
      change (addNew (addAllNew [] names) name).Pairwise _
      by_cases old : name ∈ addAllNew [] names
      · rwa [addNew_of_mem old]
      · rw [addNew_of_notMem old, List.pairwise_append]
        refine ⟨before, List.pairwise_singleton _ _, ?_⟩
        intro first firstMem second secondMem
        rw [List.mem_singleton.mp secondMem]
        simp only [mem_addAllNew, List.not_mem_nil, false_or] at firstMem old
        rw [List.idxOf_append_of_mem firstMem, List.idxOf_append_of_notMem old]
        have inside : names.idxOf first < names.length := List.idxOf_lt_length_of_mem firstMem
        omega

/-- What is collected stands in the order of the names. -/
theorem addAllNew_sublist (names : List String) : (addAllNew [] names).Sublist names := by
  induction names using List.reverseRecOn with
  | nil => exact List.Sublist.slnil
  | append_singleton names name ih =>
      rw [addAllNew_append]
      change (addNew (addAllNew [] names) name).Sublist _
      unfold addNew
      split
      · exact ih.trans (List.sublist_append_left names [name])
      · exact ih.append (List.Sublist.refl [name])

/-- Names of which none is there yet are collected among themselves. -/
theorem addAllNew_of_disjoint {seen names : List String} (disjoint : seen.Disjoint names) :
    addAllNew seen names = seen ++ addAllNew [] names := by
  induction names using List.reverseRecOn with
  | nil => exact (List.append_nil seen).symm
  | append_singleton names name ih =>
      have apart := List.disjoint_append_right.mp disjoint
      have new : name ∉ seen := fun old => apart.2 old List.mem_cons_self
      rw [addAllNew_append, addAllNew_append, ih apart.1]
      change addNew (seen ++ addAllNew [] names) name = seen ++ addNew (addAllNew [] names) name
      by_cases old : name ∈ addAllNew [] names
      · rw [addNew_of_mem old, addNew_of_mem (List.mem_append_right seen old)]
      · rw [addNew_of_notMem old, addNew_of_notMem, List.append_assoc]
        exact List.not_mem_append new old

section

variable {α : Type} [BEq α] [LawfulBEq α] {items : List α} {item : α}

/-- One more item that is there already is a repeat. -/
theorem eraseDups_concat_of_mem (old : item ∈ items) :
    (items ++ [item]).eraseDups = items.eraseDups := by
  rw [List.eraseDups_append]
  simp [List.removeAll, old]

theorem eraseDups_concat_of_notMem (new : item ∉ items) :
    (items ++ [item]).eraseDups = items.eraseDups ++ [item] := by
  rw [List.eraseDups_append]
  simp [List.removeAll, new, List.eraseDups_cons]

theorem nodup_eraseDups (items : List α) : items.eraseDups.Nodup := by
  induction items using List.reverseRecOn with
  | nil => exact .nil
  | append_singleton items item ih =>
      by_cases old : item ∈ items
      · rwa [eraseDups_concat_of_mem old]
      · rw [eraseDups_concat_of_notMem old, List.nodup_append]
        refine ⟨ih, List.nodup_singleton item, ?_⟩
        rintro other otherMem same sameMem rfl
        rw [List.mem_singleton.mp sameMem] at otherMem
        exact old (List.mem_eraseDups.mp otherMem)

/-- Names that the items of a list give come, without repeats, in the order in which they are given
first. -/
theorem pairwise_eraseDups_filterMap {β : Type} {related : β → β → Prop} {name? : β → Option α}
    {givers : List β} (ordered : givers.Pairwise related) :
    (givers.filterMap name?).eraseDups.Pairwise fun name later =>
      ∃ giver ∈ givers, name? giver = some name ∧
        ∀ other ∈ givers, name? other = some later → related giver other := by
  induction givers using List.reverseRecOn with
  | nil => exact .nil
  | append_singleton givers last ih =>
      obtain ⟨before, _, allBefore⟩ := List.pairwise_append.mp ordered
      have lastAfter (giver : β) (giverMem : giver ∈ givers) : related giver last :=
        allBefore giver giverMem last List.mem_cons_self
      -- one more giver comes after the first giver of every name that was given before
      have carried : (givers.filterMap name?).eraseDups.Pairwise fun name later =>
          ∃ giver ∈ givers ++ [last], name? giver = some name ∧
            ∀ other ∈ givers ++ [last], name? other = some later → related giver other := by
        refine (ih before).imp ?_
        rintro name later ⟨giver, giverMem, gives, first⟩
        refine ⟨giver, List.mem_append_left _ giverMem, gives, fun other otherMem otherGives => ?_⟩
        rcases List.mem_append.mp otherMem with earlier | isLast
        · exact first other earlier otherGives
        · rw [List.mem_singleton.mp isLast]
          exact lastAfter giver giverMem
      rw [List.filterMap_append, List.filterMap_cons, List.filterMap_nil]
      cases given : name? last with
      | none => rwa [List.append_nil]
      | some newest =>
          by_cases old : newest ∈ givers.filterMap name?
          · rwa [eraseDups_concat_of_mem old]
          · rw [eraseDups_concat_of_notMem old, List.pairwise_append]
            refine ⟨carried, List.pairwise_singleton _ _, ?_⟩
            intro name nameMem later laterMem
            rw [List.mem_singleton.mp laterMem]
            obtain ⟨giver, giverMem, gives⟩ :=
              List.mem_filterMap.mp (List.mem_eraseDups.mp nameMem)
            refine ⟨giver, List.mem_append_left _ giverMem, gives, fun other otherMem otherGives => ?_⟩
            rcases List.mem_append.mp otherMem with earlier | isLast
            · exact absurd (List.mem_filterMap.mpr ⟨other, earlier, otherGives⟩) old
            · rw [List.mem_singleton.mp isLast]
              exact lastAfter giver giverMem

end

/-- Leaving out repeats is collecting names. -/
theorem eraseDups_eq_addAllNew (names : List String) : names.eraseDups = addAllNew [] names := by
  induction names using List.reverseRecOn with
  | nil => rfl
  | append_singleton names name ih =>
      rw [addAllNew_append]
      change _ = addNew (addAllNew [] names) name
      by_cases old : name ∈ names
      · rw [addNew_of_mem (mem_addAllNew.mpr (.inr old)), eraseDups_concat_of_mem old, ih]
      · rw [addNew_of_notMem (by simpa using old), eraseDups_concat_of_notMem old, ih]

/-- Leaving out others does not change which of two names comes first. -/
theorem idxOf_filter_lt_iff (test : String → Bool) {first second : String}
    (firstPasses : test first = true) (secondPasses : test second = true) (names : List String) :
    (names.filter test).idxOf first < (names.filter test).idxOf second ↔
      names.idxOf first < names.idxOf second := by
  induction names with
  | nil => simp
  | cons name rest ih =>
      by_cases isFirst : name = first
      · subst isFirst
        rw [List.filter_cons_of_pos firstPasses]
        by_cases same : name = second
        · simp [← same]
        · simp [List.idxOf_cons_ne _ same]
      · by_cases isSecond : name = second
        · subst isSecond
          rw [List.filter_cons_of_pos secondPasses]
          simp
        · by_cases passes : test name = true
          · rw [List.filter_cons_of_pos passes]
            simp [List.idxOf_cons_ne _ isFirst, List.idxOf_cons_ne _ isSecond, ih]
          · rw [List.filter_cons_of_neg passes]
            simp [List.idxOf_cons_ne _ isFirst, List.idxOf_cons_ne _ isSecond, ih]

/-- What is put at the end when its name is new is collected as it comes when all names are
new. -/
theorem foldl_put_eq_append {α : Type} {name : α → String} {put : List α → α → List α}
    (put_new : ∀ seen a, name a ∉ seen.map name → put seen a = seen ++ [a]) {seen more : List α}
    (nodup : ((seen ++ more).map name).Nodup) : more.foldl put seen = seen ++ more := by
  induction more generalizing seen with
  | nil => simp
  | cons a rest ih =>
      have new : name a ∉ seen.map name := by
        rw [List.map_append, List.nodup_append] at nodup
        intro old
        exact nodup.2.2 _ old _ List.mem_cons_self rfl
      rw [List.foldl_cons, put_new seen a new, ih (by simpa using nodup), List.append_assoc]
      rfl

/-- Parting elements by keys that are given once and cover all of them loses and doubles
nothing. -/
theorem flatMap_filter_key_perm {α κ : Type} [BEq κ] [LawfulBEq κ] {keys : List κ}
    {items : List α} {key : α → κ} (nodup : keys.Nodup)
    (covered : ∀ item ∈ items, key item ∈ keys) :
    (keys.flatMap fun group => items.filter fun item => key item == group).Perm items := by
  induction keys generalizing items with
  | nil =>
      cases items with
      | nil => exact .nil
      | cons item rest => exact absurd (covered item List.mem_cons_self) List.not_mem_nil
  | cons group rest ih =>
      rcases List.nodup_cons.mp nodup with ⟨groupNotMem, restNodup⟩
      let others := items.filter fun item => !(key item == group)
      have restCovered : ∀ item ∈ others, key item ∈ rest := by
        intro item itemMem
        rcases List.mem_filter.mp itemMem with ⟨itemMem, other⟩
        refine (List.mem_cons.mp (covered item itemMem)).resolve_left ?_
        simpa using other
      -- the group takes its own items only, so that the other groups still have all of theirs
      have others_eq : ∀ other ∈ rest,
          (items.filter fun item => key item == other) =
            others.filter fun item => key item == other := by
        intro other otherMem
        rw [List.filter_filter]
        apply List.filter_congr
        intro item _
        by_cases same : key item = other
        · have notGroup : other ≠ group := fun eq => groupNotMem (eq ▸ otherMem)
          simp [same, notGroup]
        · simp [same]
      have rest_eq : (rest.flatMap fun group => items.filter fun item => key item == group) =
          rest.flatMap fun group => others.filter fun item => key item == group := by
        simp only [List.flatMap_def]
        rw [List.map_congr_left others_eq]
      rw [List.flatMap_cons, rest_eq]
      exact ((ih restNodup restCovered).append_left _).trans (List.filter_append_perm _ items)

/-- With distinct names an entry is found under a name exactly when it is there. -/
theorem lookup_eq_some_iff_mem {β : Type} {entries : List (String × β)}
    (nodup : (entries.map (·.1)).Nodup) {name : String} {value : β} :
    entries.lookup name = some value ↔ (name, value) ∈ entries := by
  constructor
  · intro found
    rcases List.lookup_eq_some_iff.mp found with ⟨before, after, rfl, _⟩
    exact List.mem_append_right _ List.mem_cons_self
  · intro given
    rcases List.append_of_mem given with ⟨before, after, rfl⟩
    refine List.lookup_eq_some_iff.mpr ⟨before, after, rfl, ?_⟩
    intro entry entryMem
    rw [List.map_append, List.nodup_append] at nodup
    exact bne_iff_ne.mpr (nodup.2.2 entry.1 (List.mem_map_of_mem entryMem) name (by simp)).symm

end Stencil
