import PathQuery.Cache.Bounded

/-!
# Soft maps

A map that can give its values back. Values are shared with callers; reclaiming lets go of every
value that no caller holds and only remembers the others, until a look-up takes hold of them again.

* names: `Shared`, `Slot`, `SoftMap`; `get`, `insert`, `remove`, `reclaim`, `clear`, `keys`.
* Operations that can meet a value the map has let go of are told which values callers hold.
-/

namespace PathQuery

universe u

/-- A value with an identity: two equal values with different numbers are different objects. -/
structure Shared (α : Type u) where
  id : Nat
  value : α

/-- A value in a soft map: kept, or only remembered for as long as a caller holds it. -/
inductive Slot (α : Type u) where
  | kept (v : Shared α)
  | remembered (v : Shared α)

namespace Slot

variable {α : Type u}

/-- The value of a slot. -/
def shared : Slot α → Shared α
  | kept v | remembered v => v

/-- The value is still there. -/
def isLive (held : Nat → Bool) : Slot α → Bool
  | kept _ => true
  | remembered v => held v.id

/-- The slot after the map has let go of its value. -/
def demote (slot : Slot α) : Slot α := remembered slot.shared

end Slot

/-- A map that can give its values back, with at most `limit` names. -/
structure SoftMap (α : Type u) where
  limit : Nat
  entries : Table (Slot α) := .empty

namespace SoftMap

variable {α : Type u}

/-- The value of a name; it is kept from now on. A name whose value is gone goes too. -/
def get (m : SoftMap α) (held : Nat → Bool) (k : String) : Option (Shared α) × SoftMap α :=
  match m.entries.get? k with
  | none => (none, m)
  | some slot =>
    if slot.isLive held then
      (some slot.shared, { m with entries := m.entries.insert k (.kept slot.shared) })
    else (none, { m with entries := m.entries.erase k })

/-- The map with a value kept, and whether another name had to go. -/
def insert (m : SoftMap α) (k : String) (v : Shared α) (choice : Eviction := .oldest) :
    Bool × SoftMap α :=
  let (evicted, entries) := m.entries.insertBounded m.limit k (.kept v) choice
  (evicted, { m with entries })

/-- The value of a name, which is taken out. -/
def remove (m : SoftMap α) (held : Nat → Bool) (k : String) : Option (Shared α) × SoftMap α :=
  let found := (m.entries.get? k).bind fun slot =>
    if slot.isLive held then some slot.shared else none
  (found, { m with entries := m.entries.erase k })

/-- Lets go of every value and drops the names whose values nobody holds; their number. -/
def reclaim (m : SoftMap α) (held : Nat → Bool) : Nat × SoftMap α :=
  let entries := (m.entries.map Slot.demote).filter (Slot.isLive held)
  (m.entries.size - entries.size, { m with entries })

/-- The map without names. -/
def clear (m : SoftMap α) : SoftMap α := { m with entries := .empty }

/-- The number of names. -/
def size (m : SoftMap α) : Nat := m.entries.size

/-- The names. -/
def keys (m : SoftMap α) : List String := m.entries.keys

end SoftMap

end PathQuery
