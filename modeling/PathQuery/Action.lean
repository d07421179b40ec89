import PathQuery.Error
import PathQuery.Store.Build

/-!
# Actions on a store

An action reads and changes a store and may fail. What was changed before a failure stays changed.

* names: `Action`, `Action.read`, `Action.change`, `Action.make`, `Action.peek`.
-/

namespace PathQuery

/-- A computation that changes a store and may fail. -/
abbrev Action (α : Type) : Type := ExceptT PathError (StateM Store) α

namespace Action

/-- Something that can be read off a store. -/
def read {α : Type} (f : Store → Except PathError α) : Action α := do
  match f (← get) with
  | .ok a => pure a
  | .error e => throw e

/-- A change that cannot fail. -/
def change (f : Store → Store) : Action Unit := modify f

/-- A new object. -/
def make {α : Type} (f : Store → α × Store) : Action α := modifyGet f

/-- What an action gives on a store that stays as it is: changes are dropped. -/
def peek {α : Type} (a : Action α) (s : Store) : Except PathError α := (a.run.run s).1

end Action

end PathQuery
