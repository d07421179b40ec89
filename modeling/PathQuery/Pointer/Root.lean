import PathQuery.Action
import PathQuery.Pointer.Read

/-!
# Root values

The value at the root of a pointer's chain. A pointer that is asked for it settles it: from then on
it gives the same answer, whatever the graph comes to hold there.

* names: `Pointer.rootValue`, `Store.settle`, `Action.rootValue`.
* **`rootValue_eq_of_settled`**: a settled root value does not change with the graph.
-/

namespace PathQuery

/-- The value at the root of a pointer's chain: the settled one, else the present one. -/
def Pointer.rootValue (s : Store) (p : Pointer) : Value := (p.settledRoot? s).getD (p.origin s)

/-- The store in which the root value of a pointer is settled. -/
def Store.settle (s : Store) (p : Pointer) : Store :=
  match p.settledRoot? s with
  | some _ => s
  | none => { s with roots := (p, p.origin s) :: s.roots }

/-- Asks a pointer for its root value. -/
def Action.rootValue (p : Pointer) : Action Value := do
  Action.change (·.settle p)
  pure (p.rootValue (← get))

namespace Pointer

variable (s : Store) (p : Pointer)

@[simp] theorem settledRoot?_settle :
    p.settledRoot? (s.settle p) = some (p.rootValue s) := by
  cases hv : p.visit.settled with
  | some v => simp [Store.settle, rootValue, settledRoot?, hv]
  | none =>
    cases hl : s.roots.lookup p <;> simp [Store.settle, rootValue, settledRoot?, hv, hl]

/-- **A settled root value does not change with the graph.** -/
theorem rootValue_eq_of_settled {t : Store} (h : t.roots = (s.settle p).roots) :
    p.rootValue t = p.rootValue s := by
  have : p.settledRoot? t = p.settledRoot? (s.settle p) := by simp [settledRoot?, h]
  simp [rootValue, this]

end Pointer

end PathQuery
