import Stencil.Arrangement.Command

/-!
# Journals

A journal keeps an arrangement and the commands that led to it, the most recent
ones up to a limit.  A refused command changes neither.
-/

namespace Stencil

/-- An arrangement with the commands accepted last, oldest first. -/
structure Journal where
  arrangement : Arrangement
  history : List Record.Fields := []
  limit : Nat := 200
  deriving DecidableEq, Repr, Inhabited

namespace Journal

/-- The journal of an arrangement that is begun. -/
def create (placeholders : List Placeholder) (settings : Option Settings) (limit : Nat) : Journal :=
  { arrangement := Arrangement.create placeholders settings, limit }

/-- The last elements of a list, up to a number of them. -/
def lastOf {α : Type} (limit : Nat) (items : List α) : List α :=
  items.drop (items.length - limit)

/-- Applies a command and keeps it. -/
def dispatch (journal : Journal) (fields : Record.Fields) : Except CommandError Journal :=
  match journal.arrangement.apply fields with
  | .ok arrangement =>
    .ok { journal with
      arrangement
      history := lastOf journal.limit (journal.history ++ [fields]) }
  | .error refused => .error refused

/-- The command that resets an arrangement. -/
def resetCommand : Record.Fields := [("type", .str "reset")]

/-- Applies commands one after the other, passing over those that are refused. -/
def dispatchAll (journal : Journal) (commands : List Record.Fields) : Journal :=
  commands.foldl
    (fun journal fields =>
      match journal.dispatch fields with
      | .ok next => next
      | .error _ => journal)
    journal

/-- The types of the commands kept. -/
def historyTypes (journal : Journal) : List Json :=
  journal.history.map fun fields => (Json.field? fields "type").getD .null

end Journal

end Stencil
