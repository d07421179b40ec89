/-!
# Ordered tables

A finite map from names to values that keeps its names in the order in which they first came. A
name occurs once: the invariant is part of the type.

* names: `Table`, `empty`, `get?`, `has`, `insert`, `erase`, `filter`, `map`, `keys`,
  `position?`, `ofList`.
* **`keys_insert`**, `keys_erase`: a known name keeps its place, a new one goes to the end, and an
  erased one leaves the others as they were.
* **`get?_insert_self`**, `get?_insert_of_ne`, `insert_insert`, `get?_erase_self`,
  `get?_erase_of_ne`.
-/

namespace PathQuery

universe u

/-- Names with values, each name once, in order of first insertion. -/
structure Table (α : Type u) where
  entries : List (String × α)
  nodup : (entries.map Prod.fst).Nodup

namespace Table

variable {α : Type u}

/-! ## Entry lists -/

/-- The entries with `k` bound to `v`, at the place of `k` if it has one, else at the end. -/
def put (k : String) (v : α) : List (String × α) → List (String × α)
  | [] => [(k, v)]
  | (k', w) :: rest => if k' = k then (k, v) :: rest else (k', w) :: put k v rest

theorem map_fst_put (k : String) (v : α) (l : List (String × α)) :
    (put k v l).map Prod.fst =
      if k ∈ l.map Prod.fst then l.map Prod.fst else l.map Prod.fst ++ [k] := by
  induction l with
  | nil => simp [put]
  | cons e l ih =>
    obtain ⟨k', w⟩ := e
    by_cases h : k' = k
    · subst h; simp [put]
    · have h' : k ≠ k' := fun e => h e.symm
      simp only [put, if_neg h, List.map_cons, ih, List.mem_cons, h', false_or]
      split <;> simp

theorem nodup_put (k : String) (v : α) {l : List (String × α)} (h : (l.map Prod.fst).Nodup) :
    ((put k v l).map Prod.fst).Nodup := by
  rw [map_fst_put]
  split
  · exact h
  · next hk =>
    rw [List.nodup_append]
    refine ⟨h, by simp, fun a ha b hb e => ?_⟩
    simp only [List.mem_singleton] at hb
    exact hk (hb ▸ e ▸ ha)

theorem put_put (k : String) (v w : α) (l : List (String × α)) :
    put k w (put k v l) = put k w l := by
  induction l with
  | nil => simp [put]
  | cons e l ih =>
    obtain ⟨k', x⟩ := e
    by_cases h : k' = k
    · simp [put, h]
    · simp [put, h, ih]

/-! ## Tables -/

/-- The table without names. -/
def empty : Table α := ⟨[], .nil⟩

instance : Inhabited (Table α) := ⟨empty⟩

/-- The value of a name. -/
def get? (t : Table α) (k : String) : Option α := t.entries.lookup k

/-- The names, in order. -/
def keys (t : Table α) : List String := t.entries.map Prod.fst

/-- The name is bound. -/
def has (t : Table α) (k : String) : Bool := t.keys.contains k

/-- The place of a name in the order. -/
def position? (t : Table α) (k : String) : Option Nat := t.keys.findIdx? (· == k)

/-- The number of names. -/
def size (t : Table α) : Nat := t.entries.length

/-- Binds a name, in its place if it is bound already. -/
def insert (t : Table α) (k : String) (v : α) : Table α :=
  ⟨put k v t.entries, nodup_put k v t.nodup⟩

/-- Unbinds a name; the others keep their order. -/
def erase (t : Table α) (k : String) : Table α :=
  ⟨t.entries.filter (·.1 != k), t.nodup.sublist (List.filter_sublist.map Prod.fst)⟩

/-- The names whose values pass a test. -/
def filter (t : Table α) (test : α → Bool) : Table α :=
  ⟨t.entries.filter fun e => test e.2, t.nodup.sublist (List.filter_sublist.map Prod.fst)⟩

/-- The table with every value changed. -/
def map {β : Type u} (f : α → β) (t : Table α) : Table β :=
  ⟨t.entries.map fun e => (e.1, f e.2), by simpa [Function.comp_def] using t.nodup⟩

/-- The table of a list of bindings: the first occurrence of a name fixes its place, the last its
value. -/
def ofList (l : List (String × α)) : Table α := l.foldl (fun t (k, v) => t.insert k v) empty

/-! ## What the operations do -/

theorem keys_insert (t : Table α) (k : String) (v : α) :
    (t.insert k v).keys = if k ∈ t.keys then t.keys else t.keys ++ [k] := map_fst_put k v t.entries

theorem keys_erase (t : Table α) (k : String) : (t.erase k).keys = t.keys.filter (· != k) := by
  simp only [keys, erase]
  induction t.entries with
  | nil => rfl
  | cons e l ih => by_cases h : e.1 = k <;> simp [h, ih]

theorem lookup_put_self (k : String) (v : α) (l : List (String × α)) :
    (put k v l).lookup k = some v := by
  induction l with
  | nil => simp [put]
  | cons e l ih =>
    obtain ⟨k₀, w⟩ := e
    by_cases h : k₀ = k
    · simp [put, h]
    · have hb : (k == k₀) = false := beq_eq_false_iff_ne.2 fun e => h e.symm
      simp [put, h, List.lookup_cons, hb, ih]

theorem lookup_put_of_ne {k k' : String} (h : k' ≠ k) (v : α) (l : List (String × α)) :
    (put k v l).lookup k' = l.lookup k' := by
  have hb : (k' == k) = false := beq_eq_false_iff_ne.2 h
  induction l with
  | nil => simp [put, List.lookup_cons, hb]
  | cons e l ih =>
    obtain ⟨k₀, w⟩ := e
    by_cases he : k₀ = k
    · subst he; simp [put, List.lookup_cons, hb]
    · simp [put, he, List.lookup_cons, ih]

@[simp] theorem get?_insert_self (t : Table α) (k : String) (v : α) :
    (t.insert k v).get? k = some v := lookup_put_self k v t.entries

theorem get?_insert_of_ne {k k' : String} (h : k' ≠ k) (t : Table α) (v : α) :
    (t.insert k v).get? k' = t.get? k' := lookup_put_of_ne h v t.entries

/-- A name that is bound twice has the second value. -/
theorem insert_insert (t : Table α) (k : String) (v w : α) :
    (t.insert k v).insert k w = t.insert k w := by
  simp only [insert, put_put]

@[simp] theorem get?_erase_self (t : Table α) (k : String) : (t.erase k).get? k = none := by
  simp only [get?, erase, List.lookup_eq_none_iff]
  intro e he
  have := (List.mem_filter.1 he).2
  exact bne_iff_ne.2 fun h : k = e.1 => by simp [h] at this

theorem get?_erase_of_ne {k k' : String} (h : k' ≠ k) (t : Table α) :
    (t.erase k).get? k' = t.get? k' := by
  simp only [get?, erase]
  induction t.entries with
  | nil => rfl
  | cons e l ih =>
    obtain ⟨k₀, w⟩ := e
    by_cases he : k₀ = k
    · subst he; simp [ih, List.lookup_cons, beq_eq_false_iff_ne.2 h]
    · simp [he, ih, List.lookup_cons]

end Table

end PathQuery
