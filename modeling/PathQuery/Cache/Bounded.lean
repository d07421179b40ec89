import PathQuery.Table

/-!
# Bounded tables

Insertion into a table that must not grow beyond a limit. A new name is given room first: other
names go until there is room, and a limit of zero still leaves room for one name. Which names go is
up to an eviction; nothing that a table promises depends on it.

* names: `Eviction`, `Eviction.oldest`, `Table.evict`, `Table.insertBounded`.
* **`size_insertBounded_le`**: the limit is kept. **`get?_insertBounded`**: the new name is there.
-/

namespace PathQuery

/-- A choice of one of the names of a table, which goes to make room. -/
structure Eviction where
  victim : (names : List String) → names ≠ [] → String
  victim_mem : ∀ names h, victim names h ∈ names

/-- The name that has been there longest goes. -/
def Eviction.oldest : Eviction := ⟨List.head, fun _ => List.head_mem⟩

namespace Table

universe u

variable {α : Type u}

/-- The table after `n` names have gone, one at a time. -/
def evict (choice : Eviction) : Nat → Table α → Table α
  | 0, t => t
  | n + 1, t => if h : t.keys = [] then t else evict choice n (t.erase (choice.victim t.keys h))

/-- The table with a name bound, and whether another name had to go. -/
def insertBounded (t : Table α) (limit : Nat) (k : String) (v : α)
    (choice : Eviction := .oldest) : Bool × Table α :=
  if t.has k then (false, t.insert k v)
  else
    let excess := t.size + 1 - max limit 1
    (excess != 0, (t.evict choice excess).insert k v)

theorem size_insert (t : Table α) (k : String) (v : α) :
    (t.insert k v).size = if t.has k then t.size else t.size + 1 := by
  have h := congrArg List.length (t.keys_insert k v)
  have hk : t.has k = decide (k ∈ t.keys) := by simp [has]
  simp only [size, hk]
  simp only [keys, List.length_map] at h
  rw [h]
  by_cases hm : k ∈ t.keys <;> simp [keys] at hm ⊢ <;> simp [hm]

theorem size_erase {t : Table α} {k : String} (h : k ∈ t.keys) :
    (t.erase k).size + 1 = t.size := by
  have hnodup : t.keys.Nodup := t.nodup
  have hlength : (t.erase k).keys.length = t.keys.length - 1 := by
    rw [keys_erase, ← hnodup.erase_eq_filter, List.length_erase_of_mem h]
  have hpos := List.length_pos_of_mem h
  simp only [keys, List.length_map] at hlength hpos
  simp only [size]
  omega

theorem size_evict (choice : Eviction) (n : Nat) (t : Table α) :
    (t.evict choice n).size = t.size - n := by
  induction n generalizing t with
  | zero => rfl
  | succ n ih =>
    simp only [evict]
    split
    · next h =>
      have : t.size = 0 := by simpa [keys, size] using h
      omega
    · next h =>
      have := size_erase (choice.victim_mem t.keys h)
      rw [ih]
      omega

theorem size_insertBounded_le {t : Table α} {limit : Nat} (h : t.size ≤ max limit 1) (k : String)
    (v : α) (choice : Eviction) : (t.insertBounded limit k v choice).2.size ≤ max limit 1 := by
  simp only [insertBounded]
  split
  · next hk => simpa [size_insert, hk] using h
  · simp only [size_insert, size_evict]
    split <;> omega

@[simp] theorem get?_insertBounded (t : Table α) (limit : Nat) (k : String) (v : α)
    (choice : Eviction) : (t.insertBounded limit k v choice).2.get? k = some v := by
  simp only [insertBounded]
  split <;> simp

end Table

end PathQuery
