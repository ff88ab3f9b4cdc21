import Stencil.Proofs.Arrangement.Conservation
import Stencil.Proofs.Arrangement.Run
import Stencil.Proofs.Outcome

/-!
# Replaying a journal

A journal keeps the commands accepted last, up to a limit.  All accepted commands
together lead from the beginning to where the run has led, but most of them may have
been dropped.  A reset forgets everything except the pool that the operator began with,
which no command touches; so the commands that are kept suffice to replay a run from a
reset among them.
-/

namespace Stencil

namespace Arrangement

theorem reset_of_apply {a b : Arrangement} {fields : Record.Fields}
    (applied : a.apply fields = .ok b) : b.reset = a.reset := by
  rw [reset, reset, initialPool_of_edit (edit_of_apply applied)]

theorem reset_of_applyAll {a b : Arrangement} {commands : List Record.Fields}
    (applied : a.applyAll commands = .ok b) : b.reset = a.reset := by
  induction commands generalizing a with
  | nil =>
      cases applied
      rfl
  | cons fields rest ih =>
      obtain ⟨middle, first, others⟩ := bind_eq_ok.mp applied
      exact (ih others).trans (reset_of_apply first)

/-- An operator begins where a reset leads. -/
theorem reset_create (placeholders : List Placeholder) (settings : Option Settings) :
    (create placeholders settings).reset = create placeholders settings := by
  cases settings <;> rfl

/-- What follows a reset is all that counts. -/
theorem applyAll_of_reset {a b : Arrangement} {before after : List Record.Fields}
    {resetting : Record.Fields} (resets : Command.ofFields resetting = .ok .reset)
    (applied : a.applyAll (before ++ resetting :: after) = .ok b) :
    a.reset.applyAll after = .ok b := by
  rw [applyAll_append] at applied
  obtain ⟨middle, earlier, applied⟩ := bind_eq_ok.mp applied
  rw [applyAll_cons] at applied
  obtain ⟨restored, reset_eq, later⟩ := bind_eq_ok.mp applied
  simp only [apply, resets, Command.run, Except.ok.injEq] at reset_eq
  rw [← reset_of_applyAll earlier, reset_eq]
  exact later

end Arrangement

namespace Journal

open Arrangement

/-- Elements dropped earlier make no difference for the last ones. -/
theorem lastOf_lastOf_append {α : Type} (limit : Nat) (first second : List α) :
    lastOf limit (lastOf limit first ++ second) = lastOf limit (first ++ second) := by
  have cut : lastOf limit first ++ second =
      (first ++ second).drop (first.length - limit) := by
    rw [lastOf, List.drop_append_of_le_length (Nat.sub_le _ _)]
  rw [cut, lastOf, lastOf, List.drop_drop]
  congr 1
  simp only [List.length_drop, List.length_append]
  omega

/-- A journal that keeps the last of some commands keeps the last of them and of those that
a run adds. -/
theorem history_dispatchAll {journal : Journal} {earlier : List Record.Fields}
    (history_eq : journal.history = lastOf journal.limit earlier) (commands : List Record.Fields) :
    (journal.dispatchAll commands).history =
      lastOf journal.limit (earlier ++ journal.arrangement.accepted commands) := by
  induction commands generalizing journal earlier with
  | nil => simpa [accepted] using history_eq
  | cons fields rest ih =>
      cases applied : journal.arrangement.apply fields with
      | error refused =>
          rw [dispatchAll_cons_of_error applied, accepted_of_error applied]
          exact ih history_eq
      | ok b =>
          have kept_eq : (journal.kept fields b).history =
              lastOf journal.limit (earlier ++ [fields]) := by
            rw [kept, history_eq, lastOf_lastOf_append]
          rw [dispatchAll_cons_of_ok applied, accepted_of_ok applied, List.append_cons]
          exact ih kept_eq

/-- After every run the journal keeps the commands accepted last, in their order and up to
the limit; the accepted commands alone lead from the beginning to the same arrangement
and leave the same journal; a reset leads back to the beginning; and the commands kept
since a reset lead from there to where the run has led. -/
theorem replay_of_run (placeholders : List Placeholder) (settings : Option Settings) (limit : Nat)
    (commands : List Record.Fields) :
    let begun := create placeholders settings limit
    let journal := begun.dispatchAll commands
    let accepted := begun.arrangement.accepted commands
    (journal.history <:+ accepted ∧ journal.history.length = min limit accepted.length) ∧
      (begun.arrangement.applyAll accepted = .ok journal.arrangement ∧
        begun.dispatchAll accepted = journal) ∧
      journal.arrangement.apply resetCommand = .ok begun.arrangement ∧
      ∀ before resetting after, journal.history = before ++ resetting :: after →
        Command.ofFields resetting = .ok .reset →
          begun.arrangement.applyAll after = .ok journal.arrangement := by
  intro begun journal accepted
  have empty : begun.history = lastOf begun.limit [] := List.drop_nil.symm
  have history_eq : journal.history = lastOf limit accepted := history_dispatchAll empty commands
  have kept : journal.history <:+ accepted := by
    rw [history_eq]
    exact List.drop_suffix _ _
  have replayed : begun.arrangement.applyAll accepted = .ok journal.arrangement :=
    begun.applyAll_accepted commands
  have reset_eq : begun.arrangement.reset = begun.arrangement := reset_create placeholders settings
  refine ⟨⟨kept, ?_⟩, ⟨replayed, begun.dispatchAll_accepted commands⟩, ?_, ?_⟩
  · rw [history_eq, lastOf, List.length_drop]
    omega
  · change Except.ok journal.arrangement.reset = _
    rw [reset_of_applyAll replayed, reset_eq]
  · intro before resetting after split_eq resets
    -- a reset that is kept is accepted, so the commands dropped before it do not count
    obtain ⟨dropped, accepted_eq⟩ := kept
    rw [split_eq, ← List.append_assoc] at accepted_eq
    rw [← accepted_eq] at replayed
    have followed := applyAll_of_reset resets replayed
    rwa [reset_eq] at followed

/-- A run with a refused command and a reset. -/
def resetRun : List Record.Fields :=
  [toggleCommand "A", moveRightCommand, [("type", .str "explode")], resetCommand,
    toggleCommand "B", moveRightCommand]

/-- What a short journal keeps since the reset is enough to replay the run. -/
theorem replay_of_resetRun :
    let begun := create [{ fullTagName := "A" }, { fullTagName := "B" }] none 3
    (begun.dispatchAll resetRun).history = [resetCommand, toggleCommand "B", moveRightCommand] ∧
      begun.arrangement.applyAll [toggleCommand "B", moveRightCommand] =
        .ok (begun.dispatchAll resetRun).arrangement := by
  have history_eq : ((create [{ fullTagName := "A" }, { fullTagName := "B" }] none 3).dispatchAll
      resetRun).history = [] ++ resetCommand :: [toggleCommand "B", moveRightCommand] := by
    decide +kernel
  exact ⟨history_eq, (replay_of_run _ none 3 resetRun).2.2.2 [] resetCommand _ history_eq rfl⟩

end Journal

end Stencil
