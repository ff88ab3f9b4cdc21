import Stencil.Proofs.Schema.Tags
import Stencil.Proofs.Session.Run

/-!
# From an upload to a form

After an upload a session only moves placeholders about, and compiling takes them from
the steps one by one.  The tags of the pool and of the form are therefore those of the
upload's input list, together with those of the generic data where it is included,
and all of them differ.
-/

namespace Stencil

open Placeholder

namespace Session

/-- Applies commands one after the other, passing over those that are refused. -/
def dispatchAll (session : Session) (commands : List Record.Fields) : Session :=
  commands.foldl
    (fun session fields =>
      match session.dispatch fields with
      | .ok next => next
      | .error _ => session)
    session

/-- Commands do not touch the generic data. -/
theorem genericList_dispatchAll (session : Session) (commands : List Record.Fields) :
    (session.dispatchAll commands).genericList = session.genericList := by
  induction commands generalizing session with
  | nil => rfl
  | cons fields rest ih =>
      change ((match session.dispatch fields with
        | .ok next => next
        | .error _ => session).dispatchAll rest).genericList = _
      rw [ih]
      cases dispatched : session.dispatch fields with
      | error refused => rfl
      | ok next =>
          obtain ⟨journal, journal', _, _, rfl⟩ := dispatch_eq_ok dispatched
          rfl

/-- A form that compiles in a session is that of its steps. -/
theorem compile_eq_ok {session : Session} {documentId : String} {preview : Bool}
    {includesGeneric : Option Bool} {today : Date} {schema : Schema}
    (compiled : session.compile documentId preview includesGeneric today = .ok schema) :
    ∃ journal, session.journal = some journal ∧
      schema = Schema.ofSteps
        { preview, fieldTypes := session.fieldTypes, settings := session.settings, today }
        documentId
        (session.stepsToCompile journal.arrangement.steps (includesGeneric.getD preview)) := by
  unfold compile at compiled
  obtain ⟨journal, organizer_eq, compiled⟩ := bind_eq_ok.mp compiled
  dsimp only at compiled
  unfold organizer at organizer_eq
  split at organizer_eq
  · next found =>
      cases organizer_eq
      split at compiled
      · next schema' compiled_eq =>
          cases compiled
          exact ⟨journal, found, Schema.compile_eq_ok compiled_eq⟩
      · cases compiled
  · cases organizer_eq

/-- The tags of the generic data that a form includes. -/
def includedTags (session : Session) (includesGeneric : Bool) : List String :=
  if includesGeneric then tagsOf session.genericList else []

theorem tagsOfSteps_stepsToCompile_perm (session : Session) (steps : List Step)
    (includesGeneric : Bool) :
    (Schema.tagsOfSteps (session.stepsToCompile steps includesGeneric)).Perm
      (Schema.tagsOfSteps steps ++ session.includedTags includesGeneric) := by
  cases includesGeneric with
  | false => simp [stepsToCompile, includedTags]
  | true => exact Schema.tagsOfSteps_withGeneric_perm steps _ _

theorem tagsOf_held (a : Arrangement) :
    tagsOf a.held = a.poolTags ++ Schema.tagsOfSteps a.steps := by
  simp [Arrangement.held, Arrangement.poolTags, Schema.tagsOfSteps, List.map_flatMap]

/-- Pool and form have the tags of all that is arranged and of the generic data that the
form includes. -/
theorem tags_of_compile {session : Session} {documentId : String} {preview : Bool}
    {includesGeneric : Option Bool} {today : Date} {schema : Schema}
    (compiled : session.compile documentId preview includesGeneric today = .ok schema) :
    ∃ journal, session.journal = some journal ∧
      (journal.arrangement.poolTags ++ schema.tags).Perm
        (tagsOf journal.arrangement.held ++
          session.includedTags (includesGeneric.getD preview)) := by
  obtain ⟨journal, journal_eq, rfl⟩ := compile_eq_ok compiled
  refine ⟨journal, journal_eq, ?_⟩
  rw [tagsOf_held, List.append_assoc]
  refine List.Perm.append_left _ ((Schema.tags_ofSteps_perm _ _ _).trans ?_)
  exact session.tagsOfSteps_stepsToCompile_perm _ _

end Session

namespace SessionRun

theorem Routed.dispatchAll {settings : Settings} {run : SessionRun} (routed : run.Routed settings)
    (commands : List Record.Fields) :
    Routed settings { run with session := run.session.dispatchAll commands } := by
  induction commands generalizing run with
  | nil => exact routed
  | cons fields rest ih =>
      cases dispatched : run.session.dispatch fields with
      | error refused =>
          simpa [Session.dispatchAll, dispatched] using ih routed
      | ok session =>
          simpa [Session.dispatchAll, dispatched] using ih (routed.dispatch dispatched)

/-- In a session in use the tags of pool and form are those of the input list and of
the generic data that is included, and all of them differ. -/
theorem Routed.tags_of_compile {settings : Settings} {run : SessionRun}
    (routed : run.Routed settings) {documentId : String} {preview : Bool}
    {includesGeneric : Option Bool} {today : Date} {schema : Schema}
    (compiled : run.session.compile documentId preview includesGeneric today = .ok schema) :
    ∃ journal upload result, run.session.journal = some journal ∧
      run.last = some (upload, result) ∧
      (journal.arrangement.poolTags ++ schema.tags).Perm
        (tagsOf result.routing.inputList ++
          run.session.includedTags (includesGeneric.getD preview)) ∧
      (journal.arrangement.poolTags ++ schema.tags).Nodup := by
  obtain ⟨journal, journal_eq, perm⟩ := Session.tags_of_compile compiled
  obtain ⟨upload, result, last_eq, arranges, settled⟩ := routed.arranged journal journal_eq
  have tags_perm := perm.trans (arranges.tagsOf_held_perm.append_right _)
  refine ⟨journal, upload, result, journal_eq, last_eq, tags_perm, tags_perm.nodup_iff.mpr ?_⟩
  cases includesGeneric.getD preview with
  | false => simpa [Session.includedTags] using settled.arranged_nodup
  | true => exact settled.arranged_nodup.append settled.generic_nodup settled.disjoint

end SessionRun

end Stencil
