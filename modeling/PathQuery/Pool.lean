/-!
# Pools

Numbered places that hold values of one type. A place is taken at the end and never given back, so
its number is an identity.

* names: `Pool`, `get`, `set`, `add`, `size`.
* **`get_set_self`**, **`get_set_of_ne`**: a write is read back, and reads of other places do not
  see it. `get_add_self`, `get_add_of_lt`: adding a place keeps the others.
-/

namespace PathQuery

universe u

/-- Numbered places. -/
structure Pool (α : Type u) where
  places : Array α := #[]

namespace Pool

variable {α : Type u} [Inhabited α]

/-- The number of places. -/
def size (p : Pool α) : Nat := p.places.size

/-- What a place holds, the default if there is no such place. -/
def get (p : Pool α) (i : Nat) : α := p.places.getD i default

/-- Writes a place; nothing happens if there is no such place. -/
def set (p : Pool α) (i : Nat) (a : α) : Pool α := ⟨p.places.setIfInBounds i a⟩

/-- A new place and its number. -/
def add (p : Pool α) (a : α) : Nat × Pool α := (p.places.size, ⟨p.places.push a⟩)

omit [Inhabited α] in
@[simp] theorem size_set (p : Pool α) (i : Nat) (a : α) : (p.set i a).size = p.size := by
  simp [size, set]

omit [Inhabited α] in
@[simp] theorem size_add (p : Pool α) (a : α) : (p.add a).2.size = p.size + 1 := by
  simp [size, add]

/-- Where there is no place, there is the default. -/
theorem get_of_not_lt {p : Pool α} {i : Nat} (h : ¬ i < p.size) : p.get i = default := by
  have h' : ¬ i < p.places.size := h
  simp [get, Array.getD, h']

theorem get_set_self {p : Pool α} {i : Nat} (h : i < p.size) (a : α) : (p.set i a).get i = a := by
  have h' : i < p.places.size := h
  simp [get, set, Array.getD, h']

theorem get_set_of_ne {i j : Nat} (h : j ≠ i) (p : Pool α) (a : α) :
    (p.set i a).get j = p.get j := by
  simp only [get, set, Array.getD_eq_getD_getElem?]
  rw [Array.getElem?_setIfInBounds_ne h.symm]

@[simp] theorem get_add_self (p : Pool α) (a : α) : (p.add a).2.get (p.add a).1 = a := by
  simp [get, add, Array.getD]

theorem get_add_of_lt {p : Pool α} {i : Nat} (h : i < p.size) (a : α) :
    (p.add a).2.get i = p.get i := by
  have h' : i < p.places.size := h
  simp only [get, add, Array.getD_eq_getD_getElem?]
  rw [Array.getElem?_push_lt h', Array.getElem?_eq_getElem h']

omit [Inhabited α] in
/-- What is written last stays. -/
theorem set_set (p : Pool α) (i : Nat) (a b : α) : (p.set i a).set i b = p.set i b := by
  simp [set]

omit [Inhabited α] in
theorem set_add (p : Pool α) (a b : α) : (p.add a).2.set p.size b = (p.add b).2 := by
  simp only [set, add, size, mk.injEq]
  apply Array.ext_getElem?
  intro i
  rw [Array.getElem?_setIfInBounds, Array.getElem?_push, Array.getElem?_push]
  by_cases hi : i = p.places.size
  · subst hi
    simp
  · simp [hi, Ne.symm hi]

end Pool

end PathQuery
