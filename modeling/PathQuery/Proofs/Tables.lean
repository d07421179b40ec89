import PathQuery.Cache.Bounded

/-!
# Look-ups in ordered tables

What a look-up finds, against the entries and the positions of a table.

* names: `get?_eq_some_iff`, `get?_eq_none_iff`, `has_iff`, `flatMap_of_get?`.
* **`get?_eq_some_iff`**: since a name occurs once, a look-up finds every entry.
-/

namespace PathQuery.Table

universe u w

variable {α : Type u} {t : Table α} {k k' : String} {v : α}

theorem lookup_eq_some_iff {κ : Type w} [BEq κ] [LawfulBEq κ] {k : κ} {l : List (κ × α)}
    (h : (l.map Prod.fst).Nodup) : l.lookup k = some v ↔ (k, v) ∈ l := by
  induction l with
  | nil => simp
  | cons e l ih =>
    obtain ⟨k₀, w⟩ := e
    simp only [List.map_cons, List.nodup_cons] at h
    rw [List.lookup_cons, List.mem_cons, Prod.mk.injEq]
    by_cases hk : k = k₀
    · subst hk
      have : (k, v) ∉ l := fun hm => h.1 (List.mem_map.2 ⟨_, hm, rfl⟩)
      simp [this, eq_comm]
    · simp [beq_eq_false_iff_ne.2 hk, hk, ih h.2]

/-- **A look-up finds every entry.** -/
theorem get?_eq_some_iff : t.get? k = some v ↔ (k, v) ∈ t.entries := lookup_eq_some_iff t.nodup

theorem get?_eq_none_iff : t.get? k = none ↔ k ∉ t.keys := by
  rw [Option.eq_none_iff_forall_ne_some]
  simp only [ne_eq, get?_eq_some_iff, keys, List.mem_map, Prod.exists, exists_and_right,
    exists_eq_right, not_exists]

theorem has_iff : t.has k = true ↔ k ∈ t.keys := by simp [has]

theorem has_iff_get? : t.has k = true ↔ ∃ v, t.get? k = some v := by
  simp [has_iff, keys, get?_eq_some_iff]

/-- What only one slot gives something for. -/
theorem flatMap_of_get? {β : Type u} {f : String × α → List β} (h : t.get? k = some v)
    (hf : ∀ e, e.1 ≠ k → f e = []) : t.entries.flatMap f = f (k, v) := by
  have main (l : List (String × α)) (hl : (l.map Prod.fst).Nodup) (hm : (k, v) ∈ l) :
      l.flatMap f = f (k, v) := by
    induction l with
    | nil => simp at hm
    | cons e l ih =>
      simp only [List.map_cons, List.nodup_cons] at hl
      rw [List.flatMap_cons]
      rcases List.mem_cons.1 hm with rfl | hm
      · have hrest : l.flatMap f = [] := List.flatMap_eq_nil_iff.2 fun e he =>
          hf e fun hk => hl.1 (List.mem_map.2 ⟨e, he, hk⟩)
        rw [hrest, List.append_nil]
      · rw [hf e fun hk => hl.1 (List.mem_map.2 ⟨_, hm, hk.symm⟩), List.nil_append]
        exact ih hl.2 hm
  exact main _ t.nodup (get?_eq_some_iff.1 h)

theorem get?_eq_of_position?_eq (h : t.position? k = t.position? k') : t.get? k = t.get? k' := by
  cases hk : t.position? k with
  | none =>
    have hnone (k : String) (hk : t.position? k = none) : t.get? k = none := by
      rw [get?_eq_none_iff]
      intro hmem
      simpa using List.findIdx?_eq_none_iff.1 hk k hmem
    rw [hnone k hk, hnone k' (h ▸ hk)]
  | some i =>
    obtain ⟨_, hi, -⟩ := List.findIdx?_eq_some_iff_getElem.1 hk
    obtain ⟨_, hi', -⟩ := List.findIdx?_eq_some_iff_getElem.1 (h ▸ hk : t.position? k' = some i)
    rw [beq_iff_eq] at hi hi'
    rw [← hi, hi']

/-! ## Look-ups after an operation -/

/-- What is found after an insertion is the new value or was found before. -/
theorem get?_insert {w : α} (h : (t.insert k v).get? k' = some w) :
    k' = k ∧ w = v ∨ t.get? k' = some w := by
  by_cases hk : k' = k
  · subst hk
    rw [get?_insert_self, Option.some.injEq] at h
    exact .inl ⟨rfl, h.symm⟩
  · exact .inr (by rwa [get?_insert_of_ne hk] at h)

theorem get?_erase (h : (t.erase k).get? k' = some v) : t.get? k' = some v := by
  by_cases hk : k' = k
  · subst hk
    simp at h
  · rwa [get?_erase_of_ne hk] at h

theorem get?_evict {choice : Eviction} {n : Nat} (h : (t.evict choice n).get? k = some v) :
    t.get? k = some v := by
  induction n generalizing t with
  | zero => exact h
  | succ n ih =>
    rw [evict] at h
    split at h
    · exact h
    · exact get?_erase (ih h)

theorem get?_insertBounded_cases {n : Nat} {w : α} {choice : Eviction}
    (h : (t.insertBounded n k v choice).2.get? k' = some w) :
    k' = k ∧ w = v ∨ t.get? k' = some w := by
  rw [insertBounded] at h
  split at h
  · exact get?_insert h
  · rcases get?_insert h with h | h
    · exact .inl h
    · exact .inr (get?_evict h)

theorem get?_filter {test : α → Bool} (h : (t.filter test).get? k = some v) :
    t.get? k = some v := by
  rw [get?_eq_some_iff] at h ⊢
  exact (List.mem_filter.1 h).1

theorem get?_map {β : Type u} {f : α → β} {w : β} (h : (t.map f).get? k = some w) :
    ∃ v, t.get? k = some v ∧ w = f v := by
  rw [get?_eq_some_iff] at h
  obtain ⟨⟨k₀, v⟩, hmem, heq⟩ := List.mem_map.1 h
  simp only [Prod.mk.injEq] at heq
  obtain ⟨rfl, rfl⟩ := heq
  exact ⟨v, get?_eq_some_iff.2 hmem, rfl⟩

end PathQuery.Table
