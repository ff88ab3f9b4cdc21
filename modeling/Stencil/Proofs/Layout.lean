import Mathlib.Data.List.Nodup
import Stencil.Proofs.Arrangement.Steps
import Stencil.Proofs.Layout.Entries

/-!
# The layout with one step

Where no layout is given, a single entry names every tag of the pool.  The tags of the
pool differ, so that each of them is named once, and all of them move into one step.
-/

namespace Stencil

open Placeholder

namespace Arrangement

/-- The step that takes up everything that lies in the pool. -/
def wholeStep (a : Arrangement) : Step :=
  { title := .str (Step.numberedTitle (a.steps.length + 1))
    fields := numbered a.pool
    isGroup := a.pool.any fun p => isDotted p.fullTagName }

end Arrangement

namespace Layout

open Arrangement

theorem arrange_whole_of_empty {a : Arrangement} (empty : a.pool = []) :
    arrange (whole a) a = a := by
  simp [whole, arrange, empty]

/-- The layout with one step puts all of a pool with differing tags into a new step. -/
theorem arrange_whole {a : Arrangement} (filled : a.pool ≠ []) (nodup : a.poolTags.Nodup)
    (unselected : a.selected = []) :
    arrange (whole a) a = { a with pool := [], steps := a.steps ++ [a.wholeStep] } := by
  let entry : LayoutEntry := { fields := a.poolTags }
  have whole_eq : whole a = [entry] := by
    simp [whole, filled, entry]
  have named : ∀ p ∈ a.pool, entry.names p = true := by
    intro p pMem
    exact List.contains_iff_mem.mpr (List.mem_map_of_mem pMem)
  have once : NamesOddly [entry] a.pool := by
    constructor
    · intro p pMem _
      have count_eq : a.poolTags.count p.fullTagName = 1 :=
        List.count_eq_one_of_mem nodup (List.mem_map_of_mem pMem)
      rw [count_eq]
    · trivial
  have chosen_eq : a.pool.filter entry.names = a.pool := List.filter_eq_self.mpr named
  have leftOver_eq : leftOver [entry] a.pool = [] := by
    rw [leftOver, List.filter_eq_nil_iff]
    intro p pMem
    simp [named p pMem]
  have steps_eq : stepsFrom (a.steps.length + 1) [entry] a.pool = [a.wholeStep] := by
    rw [stepsFrom, chosen_eq, if_neg filled, LayoutEntry.step, chosen_eq]
    rfl
  rw [whole_eq, arrange_of_namesOddly unselected once, leftOver_eq, steps_eq]

/-- Laid out from the start, a pool makes up one step at most. -/
theorem steps_arrange_whole_start {pool : List Placeholder} (nodup : (tagsOf pool).Nodup) :
    (arrange (whole (.start pool)) (.start pool)).steps =
      if pool = [] then [] else [(start pool).wholeStep] := by
  by_cases empty : pool = []
  · rw [arrange_whole_of_empty empty, if_pos empty]
    rfl
  · rw [arrange_whole (a := .start pool) empty nodup rfl, if_neg empty]
    rfl

end Layout

end Stencil
