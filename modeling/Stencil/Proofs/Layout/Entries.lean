import Stencil.Layout
import Stencil.Proofs.Arrangement.Contents
import Stencil.Proofs.Arrangement.Selection

/-!
# Laying out entry by entry

An entry of a layout flips its tags one after the other, so what it takes out of the pool
is what it names an odd number of times.  A tag that is named twice stays behind, and an
entry that takes nothing gives its title to the step of another one.  In a layout where
no entry names what is left for it an even number of times, every entry makes a step
of all that it names and that is left for it.
-/

namespace Stencil

namespace Arrangement

/-- Flipping a tag changes whether it is selected, and nothing else. -/
theorem exists_toggleSelect (a : Arrangement) (tag : String) :
    ∃ selected, a.toggleSelect tag false = { a with selected } ∧
      ∀ other, other ∈ selected ↔ if other = tag then other ∉ a.selected else other ∈ a.selected := by
  refine ⟨(a.setSelected [tag] (!a.isSelected tag)).selected, rfl, fun other => ?_⟩
  rw [← List.contains_iff_mem, ← isSelected, isSelected_setSelected]
  by_cases same : other = tag
  · simp [isSelected, same]
  · simp [isSelected, same]

/-- After flipping some tags, those are selected that were named an odd number of times. -/
theorem exists_foldl_toggleSelect {a : Arrangement} (unselected : a.selected = [])
    (tags : List String) :
    ∃ selected, tags.foldl (fun a tag => a.toggleSelect tag false) a = { a with selected } ∧
      ∀ other, other ∈ selected ↔ tags.count other % 2 = 1 := by
  suffices ∀ a : Arrangement, ∃ selected,
      tags.foldl (fun a tag => a.toggleSelect tag false) a = { a with selected } ∧
        ∀ other, other ∈ selected ↔ (other ∈ a.selected ↔ tags.count other % 2 = 0) by
    obtain ⟨selected, fold_eq, mem_iff⟩ := this a
    refine ⟨selected, fold_eq, fun other => ?_⟩
    rw [mem_iff, unselected]
    simp
  induction tags with
  | nil => exact fun a => ⟨a.selected, rfl, by simp⟩
  | cons tag rest ih =>
      intro a
      obtain ⟨first, first_eq, mem_first_iff⟩ := a.exists_toggleSelect tag
      obtain ⟨selected, fold_eq, mem_iff⟩ := ih { a with selected := first }
      refine ⟨selected, by rw [List.foldl_cons, first_eq, fold_eq], fun other => ?_⟩
      rw [mem_iff, mem_first_iff]
      by_cases same : other = tag
      · have parity : (rest.count tag + 1) % 2 = 0 ↔ ¬rest.count tag % 2 = 0 := by omega
        simp only [same, if_true, List.count_cons_self, parity]
        rw [not_iff_comm]
        exact Iff.comm
      · simp [same, List.count_cons_of_ne (Ne.symm same)]

/-- Moves the placeholders that pass a test out of the pool into a new step, if there are
any. -/
def moveWhere (a : Arrangement) (chosen : Placeholder → Bool) : Arrangement :=
  if a.pool.filter chosen = [] then a
  else
    { a with
      pool := a.pool.filter fun p => !chosen p
      steps := a.steps ++ [{
        title := .str (Step.numberedTitle (a.steps.length + 1))
        fields := numbered (a.pool.filter chosen)
        isGroup := (a.pool.filter chosen).any fun p => Placeholder.isDotted p.fullTagName }] }

/-- Moving what is selected is moving what the selection chooses from the pool; a selection
of nothing else is used up by it. -/
theorem moveRight_eq_moveWhere {a : Arrangement} (unselected : a.selected = [])
    {selected : List String} {chosen : Placeholder → Bool}
    (chosen_iff : ∀ p ∈ a.pool, chosen p = true ↔ p.fullTagName ∈ selected)
    (pooled : ∀ tag ∈ selected, tag ∈ a.poolTags) :
    { a with selected }.moveRight = a.moveWhere chosen := by
  have selectedPool_eq : { a with selected }.selectedPool = a.pool.filter chosen := by
    apply List.filter_congr
    intro p pMem
    rw [Bool.eq_iff_iff, chosen_iff p pMem, isSelected, List.contains_iff_mem]
  have remaining_eq : (a.pool.filter fun p => !{ a with selected }.isSelected p.fullTagName) =
      a.pool.filter fun p => !chosen p := by
    apply List.filter_congr
    intro p pMem
    rw [Bool.eq_iff_iff, Bool.not_eq_true', Bool.not_eq_true', ← Bool.not_eq_true,
      ← Bool.not_eq_true, chosen_iff p pMem, isSelected, List.contains_iff_mem]
  by_cases nothing : a.pool.filter chosen = []
  -- all that is selected is in the pool, of which nothing is chosen
  · have empty : selected = [] := by
      rw [List.eq_nil_iff_forall_not_mem]
      intro tag tagMem
      rcases List.mem_map.mp (pooled tag tagMem) with ⟨p, pMem, rfl⟩
      exact List.filter_eq_nil_iff.mp nothing p pMem ((chosen_iff p pMem).mpr tagMem)
    rw [moveRight_of_unselected (selectedPool_eq.trans nothing), moveWhere, if_pos nothing, empty,
      ← unselected]
  · have chosen : { a with selected }.selectedPool ≠ [] := selectedPool_eq ▸ nothing
    rw [moveRight_of_selected chosen, selectedPool_eq, remaining_eq, moveWhere, if_neg nothing,
      unselected]
    rfl

end Arrangement

namespace LayoutEntry

open Arrangement

/-- Tells whether an entry names a placeholder. -/
def names (entry : LayoutEntry) (p : Placeholder) : Bool :=
  entry.fields.contains p.fullTagName

/-- Tells whether an entry names a placeholder an odd number of times. -/
def calls (entry : LayoutEntry) (p : Placeholder) : Bool :=
  entry.fields.count p.fullTagName % 2 == 1

/-- An entry that names placeholders an odd number of times each, or not at all. -/
def NamesOddly (entry : LayoutEntry) (pool : List Placeholder) : Prop :=
  ∀ p ∈ pool, p.fullTagName ∈ entry.fields → entry.fields.count p.fullTagName % 2 = 1

instance (entry : LayoutEntry) (pool : List Placeholder) : Decidable (entry.NamesOddly pool) :=
  List.decidableBAll _ pool

theorem found_eq_nil_iff {entry : LayoutEntry} {a : Arrangement} :
    entry.found a = [] ↔ a.pool.filter entry.names = [] := by
  simp only [found, poolTags, names, List.filter_eq_nil_iff, List.contains_iff_mem,
    List.mem_map]
  constructor
  · intro unfound p pMem named
    exact unfound _ named ⟨p, pMem, rfl⟩
  · rintro unnamed _ tagMem ⟨p, pMem, rfl⟩
    exact unnamed p pMem tagMem

/-- An entry that names something in the pool takes out what it calls, and gives its title
to whatever step is the last one then. -/
theorem apply_of_found {entry : LayoutEntry} {a : Arrangement} (unselected : a.selected = [])
    (filled : entry.found a ≠ []) : entry.apply a = titled (a.moveWhere entry.calls) entry.title := by
  obtain ⟨selected, fold_eq, mem_iff⟩ := exists_foldl_toggleSelect unselected (entry.found a)
  have chosen_iff : ∀ p ∈ a.pool, entry.calls p = true ↔ p.fullTagName ∈ selected := by
    intro p pMem
    have pooled : a.poolTags.contains p.fullTagName = true :=
      List.contains_iff_mem.mpr (List.mem_map_of_mem pMem)
    rw [mem_iff, found, List.count_filter pooled, calls, beq_iff_eq]
  have pooled : ∀ tag ∈ selected, tag ∈ a.poolTags := by
    intro tag tagMem
    have odd := (mem_iff tag).mp tagMem
    have foundMem : tag ∈ entry.found a := by
      apply List.count_pos_iff.mp
      omega
    exact List.contains_iff_mem.mp (List.mem_filter.mp foundMem).2
  simp only [apply, fold_eq, List.isEmpty_iff, if_neg filled]
  rw [moveRight_eq_moveWhere unselected chosen_iff pooled]

theorem apply_of_not_found {entry : LayoutEntry} {a : Arrangement} (nothing : entry.found a = []) :
    entry.apply a = a := by
  simp [apply, nothing]

/-- The step that an entry asks for: all that it names in a pool, under its title or else
under a number. -/
def step (entry : LayoutEntry) (number : Nat) (pool : List Placeholder) : Step :=
  { title := entry.title.orElse (.str (Step.numberedTitle number))
    fields := numbered (pool.filter entry.names)
    isGroup := (pool.filter entry.names).any fun p => Placeholder.isDotted p.fullTagName }

/-- A step that has just been made is the last one and takes the title. -/
theorem titled_append (a : Arrangement) (made : Step) (title : Json) :
    titled { a with steps := a.steps ++ [made] } title =
      { a with steps := a.steps ++ [{ made with title := title.orElse made.title }] } := by
  by_cases given : title.isGiven = true
  · simp [titled, setTitle, modifyStep, given, Json.orElse, List.modify_eq_set_getElem?]
  · simp [titled, given, Json.orElse]

/-- An entry that names no tag of the pool an even number of times makes its step, unless
it finds nothing. -/
theorem apply_of_namesOddly {entry : LayoutEntry} {a : Arrangement} (unselected : a.selected = [])
    (odd : entry.NamesOddly a.pool) :
    entry.apply a =
      if a.pool.filter entry.names = [] then a
      else { a with
        pool := a.pool.filter fun p => !entry.names p
        steps := a.steps ++ [entry.step (a.steps.length + 1) a.pool] } := by
  have calls_eq : ∀ p ∈ a.pool, entry.calls p = entry.names p := by
    intro p pMem
    rw [Bool.eq_iff_iff, calls, beq_iff_eq, names, List.contains_iff_mem]
    constructor
    · intro called
      apply List.count_pos_iff.mp
      omega
    · exact odd p pMem
  have called_eq : a.pool.filter entry.calls = a.pool.filter entry.names :=
    List.filter_congr calls_eq
  have left_eq : (a.pool.filter fun p => !entry.calls p) = a.pool.filter fun p => !entry.names p :=
    List.filter_congr fun p pMem => by rw [calls_eq p pMem]
  by_cases nothing : a.pool.filter entry.names = []
  · rw [if_pos nothing, apply_of_not_found (found_eq_nil_iff.mpr nothing)]
  · rw [if_neg nothing, apply_of_found unselected (mt found_eq_nil_iff.mp nothing), moveWhere,
      called_eq, if_neg nothing, left_eq]
    exact titled_append { a with pool := a.pool.filter fun p => !entry.names p } _ _

end LayoutEntry

namespace Layout

open Arrangement

/-- The steps that a layout asks for, numbered from some number on: one for every entry that
names something that is left of the pool. -/
def stepsFrom : (number : Nat) → List LayoutEntry → List Placeholder → List Step
  | _, [], _ => []
  | number, entry :: rest, pool =>
    if pool.filter entry.names = [] then stepsFrom number rest pool
    else
      entry.step number pool ::
        stepsFrom (number + 1) rest (pool.filter fun p => !entry.names p)

/-- What no entry of a layout names. -/
def leftOver (entries : List LayoutEntry) (pool : List Placeholder) : List Placeholder :=
  pool.filter fun p => !entries.any fun entry => entry.names p

theorem leftOver_cons (entry : LayoutEntry) (rest : List LayoutEntry) (pool : List Placeholder) :
    leftOver (entry :: rest) pool = leftOver rest (pool.filter fun p => !entry.names p) := by
  simp [leftOver, List.filter_filter, Bool.and_comm]

/-- A layout in which no entry names what is left for it an even number of times. -/
def NamesOddly : List LayoutEntry → List Placeholder → Prop
  | [], _ => True
  | entry :: rest, pool =>
    entry.NamesOddly pool ∧ NamesOddly rest (pool.filter fun p => !entry.names p)

instance decidableNamesOddly : (entries : List LayoutEntry) → (pool : List Placeholder) →
    Decidable (NamesOddly entries pool)
  | [], _ => .isTrue trivial
  | _ :: rest, _ =>
    have := decidableNamesOddly rest
    inferInstanceAs (Decidable (_ ∧ _))

/-- A layout in which no entry names what is left for it an even number of times makes the
steps that it asks for, behind those that were there, and leaves the rest. -/
theorem arrange_of_namesOddly {entries : List LayoutEntry} {a : Arrangement}
    (unselected : a.selected = []) (odd : NamesOddly entries a.pool) :
    arrange entries a = { a with
      pool := leftOver entries a.pool
      steps := a.steps ++ stepsFrom (a.steps.length + 1) entries a.pool } := by
  induction entries generalizing a with
  | nil =>
      have kept : leftOver [] a.pool = a.pool := List.filter_eq_self.mpr fun _ _ => rfl
      simp [arrange, stepsFrom, kept]
  | cons entry rest ih =>
      rcases odd with ⟨entryOdd, restOdd⟩
      have first := LayoutEntry.apply_of_namesOddly unselected entryOdd
      change arrange rest (entry.apply a) = _
      rw [leftOver_cons, stepsFrom]
      -- an entry that names nothing of the pool leaves all of it to the others
      by_cases nothing : a.pool.filter entry.names = []
      · have kept : (a.pool.filter fun p => !entry.names p) = a.pool := by
          rw [List.filter_eq_self]
          intro p pMem
          simpa using List.filter_eq_nil_iff.mp nothing p pMem
        rw [kept] at restOdd ⊢
        rw [first, if_pos nothing, if_pos nothing]
        exact ih unselected restOdd
      · rw [first, if_neg nothing, if_neg nothing]
        let next : Arrangement := { a with
          pool := a.pool.filter fun p => !entry.names p
          steps := a.steps ++ [entry.step (a.steps.length + 1) a.pool] }
        have arranged := ih (a := next) unselected restOdd
        simpa [next] using arranged

/-- A pool with a member of a group. -/
def samplePool : List Placeholder :=
  [{ fullTagName := "A" }, { fullTagName := "B" }, { fullTagName := "C.d" },
    { fullTagName := "E" }]

/-- An entry that names a tag twice takes nothing, and its title goes to the step of the
entry before it; what was asked for is another step. -/
theorem repeated_tag_is_left_behind :
    let entries : List LayoutEntry :=
      [{ fields := ["A"], title := .str "One" }, { fields := ["B", "B"], title := .str "Two" }]
    (arrange entries (.start samplePool)).steps.map (fun step => (step.title, step.tags)) =
        [(.str "Two", ["A"])] ∧
      (stepsFrom 1 entries samplePool).map (fun step => (step.title, step.tags)) =
        [(.str "One", ["A"]), (.str "Two", ["B"])] := by
  decide +kernel

end Layout

end Stencil
