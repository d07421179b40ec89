import PathQuery.Proofs.Results
import PathQuery.Proofs.Tables

/-!
# Faithful caches

An expression cache is faithful if every entry is what its text parses to. Empty caches are
faithful, every operation keeps a cache faithful, and compiling through a faithful cache is parsing.

* names: `ExpressionCache.lookup`, `ExpressionCache.Faithful`, `ExpressionCache.Reached`.
* **`Reached.faithful`**; **`compile_of_faithful`**.
-/

namespace PathQuery

namespace ExpressionCache

variable {c : ExpressionCache} {held : Nat → Bool} {source : String}

/-- The entry of a text, live or not. -/
def lookup (c : ExpressionCache) (source : String) : Option (Shared Expr) :=
  match c.contents with
  | .disabled => none
  | .soft m => (m.entries.get? source).map Slot.shared
  | .bounded t => t.get? source

/-- Every entry is what its text parses to. -/
def Faithful (c : ExpressionCache) : Prop :=
  ∀ source e, c.lookup source = some e → Grammar.parse source = .ok e.value

/-- A cache without new entries stays faithful. -/
theorem Faithful.mono {d : ExpressionCache} (h : c.Faithful)
    (hd : ∀ source e, d.lookup source = some e → c.lookup source = some e) : d.Faithful :=
  fun source e he => h source e (hd source e he)

theorem faithful_ofSettings (settings : CacheSettings) (evictions : Nat → Eviction) :
    (ofSettings settings evictions).Faithful := by
  intro source e he
  simp only [lookup, ofSettings] at he
  split at he
  · simp at he
  · next m hm =>
    split at hm
    · split at hm
      · cases hm
        simp [Table.get?, Table.empty] at he
      · simp at hm
    · simp at hm
  · next t ht =>
    split at ht
    · split at ht
      · simp at ht
      · cases ht
        simp [Table.get?, Table.empty] at he
    · simp at ht

/-! ## Soft maps -/

theorem shared_get {m : SoftMap Expr} {e : Shared Expr} {k : String}
    (h : ((m.get held source).2.entries.get? k).map Slot.shared = some e) :
    (m.entries.get? k).map Slot.shared = some e := by
  rw [SoftMap.get] at h
  cases hs : m.entries.get? source with
  | none => simpa [hs] using h
  | some slot =>
    simp only [hs] at h
    split at h
    · obtain ⟨slot', hslot', rfl⟩ := Option.map_eq_some_iff.1 h
      rcases Table.get?_insert hslot' with ⟨rfl, rfl⟩ | hold
      · simp [hs, Slot.shared]
      · simp [hold]
    · obtain ⟨slot', hslot', rfl⟩ := Option.map_eq_some_iff.1 h
      simp [Table.get?_erase hslot']

theorem get_eq_some {m : SoftMap Expr} {e : Shared Expr} (h : (m.get held source).1 = some e) :
    (m.entries.get? source).map Slot.shared = some e := by
  rw [SoftMap.get] at h
  cases hs : m.entries.get? source with
  | none => simp [hs] at h
  | some slot =>
    simp only [hs] at h
    split at h <;> simp_all

theorem shared_reclaim {m : SoftMap Expr} {e : Shared Expr} {k : String}
    (h : ((m.reclaim held).2.entries.get? k).map Slot.shared = some e) :
    (m.entries.get? k).map Slot.shared = some e := by
  obtain ⟨slot, hslot, rfl⟩ := Option.map_eq_some_iff.1 h
  obtain ⟨old, hold, rfl⟩ := Table.get?_map (Table.get?_filter hslot)
  simp [hold, Slot.demote, Slot.shared]

/-! ## Operations -/

theorem lookup_count (f : Statistics → Statistics) : (c.count f).lookup source = c.lookup source :=
  rfl

theorem Faithful.find (h : c.Faithful) : (c.find held source).2.Faithful := by
  refine h.mono fun k e he => ?_
  rw [ExpressionCache.find] at he
  rw [lookup]
  split at he
  · next hc => simp [lookup, hc] at he
  · next m hc => simpa only [hc] using shared_get (by simpa only [lookup] using he)
  · next t hc => simpa [lookup, hc] using he

theorem find_of_faithful (h : c.Faithful) {e : Shared Expr}
    (he : (c.find held source).1 = some e) : Grammar.parse source = .ok e.value := by
  refine h source e ?_
  rw [ExpressionCache.find] at he
  rw [lookup]
  split at he
  · simp at he
  · next m hc => simpa only [hc] using get_eq_some he
  · next t hc => simpa only [hc] using he

theorem Faithful.store (h : c.Faithful) {e : Shared Expr}
    (he : Grammar.parse source = .ok e.value) : (c.store source e).Faithful := by
  have hnew (k : String) (f : Shared Expr) (hk : k = source ∧ f = e ∨ c.lookup k = some f) :
      Grammar.parse k = .ok f.value := by
    rcases hk with ⟨rfl, rfl⟩ | hk
    · exact he
    · exact h k f hk
  intro k f hf
  refine hnew k f ?_
  rw [ExpressionCache.store] at hf
  split at hf
  · exact .inr hf
  · next m hc =>
    obtain ⟨slot, hslot, rfl⟩ := Option.map_eq_some_iff.1 hf
    rcases Table.get?_insertBounded_cases hslot with ⟨rfl, rfl⟩ | hold
    · exact .inl ⟨rfl, rfl⟩
    · exact .inr (by simp [lookup, hc, hold])
  · next t hc =>
    rcases Table.get?_insertBounded_cases hf with hold | hold
    · exact .inl hold
    · exact .inr (by simpa [lookup, hc] using hold)

theorem Faithful.of_contents {d : ExpressionCache} (hd : d.contents = c.contents)
    (h : c.Faithful) : d.Faithful := by
  refine h.mono fun source e he => ?_
  simpa only [lookup, hd] using he

theorem Faithful.compile (h : c.Faithful) : (c.compile held source).2.Faithful := by
  have hfind : (c.find held source).2.Faithful := h.find
  rcases hf : c.find held source with ⟨_ | e, d⟩
  · rw [hf] at hfind
    have hcount : (if d.isEnabled then d.count fun n => { n with misses := n.misses + 1 }
        else d).contents = d.contents := by split <;> rfl
    rw [ExpressionCache.compile, hf]
    cases hp : Grammar.parse source with
    | error fault => exact hfind.of_contents hcount
    | ok value =>
      refine Faithful.store (e := { id := _, value }) ?_ hp
      exact hfind.of_contents hcount
  · rw [hf] at hfind
    rw [ExpressionCache.compile, hf]
    exact hfind

/-- **Compiling through a faithful cache is parsing.** -/
theorem compile_of_faithful (h : c.Faithful) :
    (c.compile held source).1.map Shared.value = Grammar.parse source := by
  rcases hf : c.find held source with ⟨_ | e, d⟩
  · rw [compile, hf]
    cases Grammar.parse source <;> rfl
  · rw [compile, hf, find_of_faithful h (by rw [hf])]
    rfl

theorem Faithful.contains (h : c.Faithful) : (c.contains held source).2.Faithful := h.find

theorem Faithful.clear (h : c.Faithful) : c.clear.Faithful := by
  intro k e he
  simp only [ExpressionCache.clear, lookup_count] at he
  refine h k e ?_
  rw [lookup] at he ⊢
  split at he
  · simp at he
  · next m hm =>
    dsimp only at hm
    split at hm <;> simp only [reduceCtorEq, CacheContents.soft.injEq] at hm
    subst hm
    simp [SoftMap.clear, Table.get?, Table.empty] at he
  · next t ht =>
    dsimp only at ht
    split at ht <;> simp only [reduceCtorEq, CacheContents.bounded.injEq] at ht
    subst ht
    simp [Table.get?, Table.empty] at he

theorem Faithful.reset (h : c.Faithful) : c.reset.Faithful := h.clear.of_contents rfl

theorem Faithful.reclaim (h : c.Faithful) : (c.reclaim held).2.Faithful := by
  rw [ExpressionCache.reclaim]
  split
  · next m hc =>
    have hm : ({ c with contents := .soft (m.reclaim held).2 } : ExpressionCache).Faithful := by
      refine h.mono fun k e he => ?_
      simpa only [lookup, hc] using shared_reclaim he
    dsimp only
    split
    · exact hm
    · exact hm.of_contents rfl
  · exact h

/-- What a cache made from settings can become in use. -/
inductive Reached : ExpressionCache → Prop
  | made (settings : CacheSettings) {evictions : Nat → Eviction} :
    Reached (ofSettings settings evictions)
  | compile {c : ExpressionCache} (hc : Reached c) (held : Nat → Bool) (source : String) :
    Reached (c.compile held source).2
  | contains {c : ExpressionCache} (hc : Reached c) (held : Nat → Bool) (source : String) :
    Reached (c.contains held source).2
  | counted {c : ExpressionCache} (hc : Reached c) (f : Statistics → Statistics) :
    Reached (c.count f)
  | clear {c : ExpressionCache} (hc : Reached c) : Reached c.clear
  | reset {c : ExpressionCache} (hc : Reached c) : Reached c.reset
  | reclaim {c : ExpressionCache} (hc : Reached c) (held : Nat → Bool) : Reached (c.reclaim held).2

/-- **Caches in use are faithful.** -/
theorem Reached.faithful (h : c.Reached) : c.Faithful := by
  induction h with
  | made settings => exact faithful_ofSettings settings _
  | compile _ _ _ ih => exact ih.compile
  | contains _ _ _ ih => exact ih.contains
  | counted _ _ ih => exact ih.of_contents rfl
  | clear _ ih => exact ih.clear
  | reset _ ih => exact ih.reset
  | reclaim _ _ ih => exact ih.reclaim

end ExpressionCache

/-! ## Runs -/

namespace Run

/-- **Compiling in a world with a faithful cache is parsing**; only the cache changes, and it stays
faithful. -/
theorem compile_of_faithful {w : World} (h : w.engine.cache.Faithful) {source : String} {e : Expr}
    (hp : Grammar.parse source = .ok e) :
    ∃ c w', (compile source).result w = (.ok c, w') ∧ c.source = source ∧ c.expr.value = e ∧
      w'.engine.cache.Faithful ∧ w'.engine.registry = w.engine.registry ∧ w'.store = w.store := by
  have hcompile : (w.engine.cache.compile (fun id => w.held.contains id) source).1.map
      Shared.value = Grammar.parse source := ExpressionCache.compile_of_faithful h
  have hkept : (w.engine.cache.compile (fun id => w.held.contains id) source).2.Faithful :=
    h.compile
  rw [result_compile, Engine.compile]
  rcases hr : w.engine.cache.compile (fun id => w.held.contains id) source with ⟨found, cache⟩
  rw [hr, hp] at hcompile
  rw [hr] at hkept
  cases found with
  | error fault => simp [Except.map] at hcompile
  | ok shared => exact ⟨_, _, rfl, rfl, Except.ok.inj hcompile, hkept, rfl, rfl⟩

end Run

end PathQuery
