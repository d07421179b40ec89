import PathQuery.Proofs.Tables
import PathQuery.Proofs.Values

/-!
# Routes through a graph

What can be reached from a value by moving to items of lists, to slots of objects and into cells.
In a tree-shaped graph an object is reached by one route only.

* names: `Hop`, `Store.hop`, `Store.follow`, `Store.Reaches`, `Store.TreeShaped`.
* `follow_unwrapUpTo`, `follow_endUpTo?`: looking through cells goes along a route.
* **`split_unique`**: a route falls apart at its last slot in one way.
-/

namespace PathQuery

/-- One move from a value to a value that it holds. -/
inductive Hop where
  | item (i : Nat)
  | key (name : String)
  | inside
deriving DecidableEq

/-- The value has an identity and holds other values. -/
def Value.isObject : Value → Bool
  | list _ | map _ | bean _ | cell _ => true
  | _ => false

@[simp] theorem Holder.isObject_value (h : Holder) : h.value.isObject = true := by cases h <;> rfl

namespace Store

/-- Where a move leads. -/
def hop (s : Store) : Value → Hop → Option Value
  | .list l, .item i => (s.lists.get l)[i]?
  | .map id, .key name => (s.slots (.map id)).get? name
  | .bean id, .key name => (s.slots (.bean id)).get? name
  | .cell c, .inside => some (s.cells.get c)
  | _, _ => none

/-- Where a route leads. -/
def follow (s : Store) (v : Value) : List Hop → Option Value
  | [] => some v
  | x :: route => (s.hop v x).bind fun w => s.follow w route

/-- The second value can be reached from the first. -/
def Reaches (s : Store) (v w : Value) : Prop := ∃ route, s.follow v route = some w

/-- Every list, map, bean and cell is reached by one route at most. -/
def TreeShaped (s : Store) (root : Value) : Prop :=
  ∀ v route route', v.isObject = true → s.follow root route = some v →
    s.follow root route' = some v → route = route'

variable {s : Store} {u v w : Value} {route route' : List Hop}

@[simp] theorem follow_nil (s : Store) (v : Value) : s.follow v [] = some v := rfl

theorem follow_append (s : Store) (v : Value) (route route' : List Hop) :
    s.follow v (route ++ route') = (s.follow v route).bind fun w => s.follow w route' := by
  induction route generalizing v with
  | nil => rfl
  | cons x route ih =>
    simp only [List.cons_append, follow]
    cases s.hop v x with
    | none => rfl
    | some w => exact ih w

theorem follow_trans (h : s.follow u route = some v) (h' : s.follow v route' = some w) :
    s.follow u (route ++ route') = some w := by
  rw [follow_append, h]
  exact h'

theorem SameGraph.follow {t : Store} (ht : s.SameGraph t) (v : Value) (route : List Hop) :
    t.follow v route = s.follow v route := by
  obtain ⟨now, roots, rfl⟩ := ht
  induction route generalizing v with
  | nil => rfl
  | cons x route ih =>
    simp only [Store.follow, ih]
    cases v <;> cases x <;> rfl

theorem SameGraph.reaches {t : Store} (ht : s.SameGraph t) (v w : Value) :
    t.Reaches v w ↔ s.Reaches v w := by
  simp only [Reaches, ht.follow]

theorem Reaches.refl (s : Store) (v : Value) : s.Reaches v v := ⟨[], rfl⟩

theorem Reaches.trans (h : s.Reaches u v) (h' : s.Reaches v w) : s.Reaches u w := by
  obtain ⟨route, h⟩ := h
  obtain ⟨route', h'⟩ := h'
  exact ⟨route ++ route', follow_trans h h'⟩

theorem follow_key {h : Holder} {name : String} (hv : (s.slots h).get? name = some v) :
    s.follow h.value [.key name] = some v := by
  cases h <;> simp only [Holder.value, follow, hop, hv] <;> rfl

theorem follow_item {l i : Nat} (hv : (s.lists.get l)[i]? = some v) :
    s.follow (.list l) [.item i] = some v := by
  simp only [follow, hop, hv]
  rfl

/-- The values that a value holds. -/
def held (s : Store) : Value → List Value
  | .list l => s.lists.get l
  | .map id => (s.slots (.map id)).entries.map Prod.snd
  | .bean id => (s.slots (.bean id)).entries.map Prod.snd
  | .cell c => [s.cells.get c]
  | _ => []

theorem mem_held_of_hop {x : Hop} (h : s.hop v x = some w) : w ∈ s.held v := by
  have hentry {t : Table Value} {name : String} (h : t.get? name = some w) :
      w ∈ t.entries.map Prod.snd := List.mem_map.2 ⟨_, Table.get?_eq_some_iff.1 h, rfl⟩
  cases v <;> cases x <;> simp only [hop, reduceCtorEq, Option.some.injEq] at h
  · exact List.mem_of_getElem? h
  · exact hentry h
  · exact hentry h
  · exact List.mem_singleton.2 h.symm

/-- What can be reached is in every collection that holds what its members hold. -/
theorem Reaches.mem {values : List Value} (h : s.Reaches v w) (hv : v ∈ values)
    (hclosed : ∀ u ∈ values, ∀ u' ∈ s.held u, u' ∈ values) : w ∈ values := by
  obtain ⟨route, h⟩ := h
  induction route generalizing v with
  | nil => exact Option.some.inj h ▸ hv
  | cons x route ih =>
    obtain ⟨u, hu, h⟩ := Option.bind_eq_some_iff.1 h
    exact ih (hclosed v hv u (mem_held_of_hop hu)) h

/-! ## Through cells -/

theorem follow_inside (c n : Nat) :
    s.follow (.cell c) (List.replicate (n + 1) .inside) =
      s.follow (s.cells.get c) (List.replicate n .inside) := rfl

theorem follow_unwrapUpTo (s : Store) (n : Nat) (v : Value) :
    ∃ k, s.follow v (List.replicate k .inside) = some (s.unwrapUpTo n v) := by
  induction n generalizing v with
  | zero => exact ⟨0, by cases v <;> rfl⟩
  | succ n ih =>
    by_cases hc : ∃ c, v = .cell c
    · obtain ⟨c, rfl⟩ := hc
      obtain ⟨k, hk⟩ := ih (s.cells.get c)
      exact ⟨k + 1, by rw [follow_inside, hk]; rfl⟩
    · exact ⟨0, by rw [unwrapUpTo_of_not_cell fun c h => hc ⟨c, h⟩]; rfl⟩

theorem follow_endUpTo? {n : Nat} (h : s.endUpTo? n v = some w) :
    ∃ k, s.follow v (List.replicate k .inside) = some w := by
  obtain ⟨k, hk⟩ := follow_unwrapUpTo s n v
  exact ⟨k, by rw [hk, unwrapUpTo_of_endUpTo? (Nat.le_succ n) h]⟩

/-- Cells with the same contents on the way show the same value. -/
theorem unwrapUpTo_eq_of_cells {t : Store} {n : Nat}
    (h : ∀ k c, s.follow v (List.replicate k .inside) = some (.cell c) →
      t.cells.get c = s.cells.get c) : t.unwrapUpTo n v = s.unwrapUpTo n v := by
  induction n generalizing v with
  | zero => cases v <;> rfl
  | succ n ih =>
    by_cases hc : ∃ c, v = .cell c
    · obtain ⟨c, rfl⟩ := hc
      simp only [unwrapUpTo]
      rw [h 0 c rfl, ih fun k c' hk => h (k + 1) c' hk]
    · rw [unwrapUpTo_of_not_cell fun c h => hc ⟨c, h⟩, unwrapUpTo_of_not_cell fun c h => hc ⟨c, h⟩]

theorem endUpTo?_eq_of_cells {t : Store} {n : Nat}
    (h : ∀ k c, s.follow v (List.replicate k .inside) = some (.cell c) →
      t.cells.get c = s.cells.get c) : t.endUpTo? n v = s.endUpTo? n v := by
  induction n generalizing v with
  | zero => cases v <;> rfl
  | succ n ih =>
    by_cases hc : ∃ c, v = .cell c
    · obtain ⟨c, rfl⟩ := hc
      simp only [endUpTo?]
      rw [h 0 c rfl, ih fun k c' hk => h (k + 1) c' hk]
    · cases v <;> first | rfl | exact absurd ⟨_, rfl⟩ hc

end Store

/-! ## The last slot of a route -/

namespace Hop

/-- The route goes through no slot. -/
def NoKey (route : List Hop) : Prop := ∀ name, .key name ∉ route

theorem noKey_replicate (n : Nat) : NoKey (List.replicate n inside) := fun name h => by
  simpa using List.eq_of_mem_replicate h

theorem NoKey.append {xs ys : List Hop} (hx : NoKey xs) (hy : NoKey ys) : NoKey (xs ++ ys) :=
  fun name h => (List.mem_append.1 h).elim (hx name) (hy name)

theorem noKey_item (i : Nat) : NoKey [item i] := fun name h => by simp at h

/-- A route falls apart at its last slot in one way. -/
theorem split_unique {before before' after after' : List Hop} {name name' : String}
    (ha : NoKey after) (ha' : NoKey after')
    (h : before ++ key name :: after = before' ++ key name' :: after') :
    before = before' ∧ name = name' ∧ after = after' := by
  induction before generalizing before' with
  | nil =>
    cases before' with
    | nil => simpa using h
    | cons x before' =>
      simp only [List.nil_append, List.cons_append, List.cons.injEq] at h
      exact absurd (h.2 ▸ List.mem_append_right _ (List.mem_cons_self ..)) (ha name')
  | cons x before ih =>
    cases before' with
    | nil =>
      simp only [List.nil_append, List.cons_append, List.cons.injEq] at h
      exact absurd (h.2 ▸ List.mem_append_right _ (List.mem_cons_self ..)) (ha' name)
    | cons x' before' =>
      simp only [List.cons_append, List.cons.injEq] at h
      obtain ⟨rfl, hname, hafter⟩ := ih h.2
      exact ⟨by rw [h.1], hname, hafter⟩

end Hop

end PathQuery
