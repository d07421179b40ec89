import Mathlib.Data.List.Perm.Subperm
import PathQuery.Proofs.Addresses
import PathQuery.Proofs.Writes

/-!
# Depth

How many objects are inside one another below a value. Where nothing holds itself, that is at most
the number of objects of the store, so that a walk down with that much fuel reaches every end.

* names: `Store.Acyclic`, `Store.Shallow`.
* **`Acyclic.shallow`**: a graph without cycles is no deeper than its store is large.
  `acyclic_of_shallow` is the converse.
* **`IsChild.shallow`**: the value of a child is less deep than the value of its parent.
-/

namespace PathQuery

theorem Value.isSome_place? (v : Value) : v.place?.isSome = v.isObject := by cases v <;> rfl

namespace Store

variable {s : Store} {u v w root : Value} {n m : Nat}

/-! ## Graphs without cycles -/

/-- The objects below a value are in the store, and none of them leads back to itself. -/
structure Acyclic (s : Store) (root : Value) : Prop where
  has {v : Value} {o : Place} (hv : s.Reaches root v) (ho : v.place? = some o) : s.Has o
  noReturn {v w : Value} (hv : s.Reaches root v) (hw : w ∈ s.held v) : ¬ s.Reaches w v

theorem held_eq_nil (h : v.isObject = false) : s.held v = [] := by
  cases v <;> first | rfl | cases h

theorem isObject_of_mem_held (h : w ∈ s.held v) : v.isObject = true := by
  cases v <;> first | rfl | cases h

/-- What a value holds can be reached from it. -/
theorem reaches_of_mem_held (h : w ∈ s.held v) : s.Reaches v w := by
  have hentry (h : Holder) (hw : w ∈ (s.slots h).entries.map Prod.snd) : s.Reaches h.value w := by
    obtain ⟨⟨name, w⟩, hmem, rfl⟩ := List.mem_map.1 hw
    exact ⟨_, follow_key (Table.get?_eq_some_iff.2 hmem)⟩
  cases v with
  | list l =>
    obtain ⟨i, hi⟩ := List.mem_iff_getElem?.1 h
    exact ⟨_, follow_item hi⟩
  | map id => exact hentry (.map id) h
  | bean id => exact hentry (.bean id) h
  | cell c => exact ⟨[.inside], congrArg some (List.mem_singleton.1 h).symm⟩
  | _ => cases h

theorem SameGraph.held {t : Store} (ht : s.SameGraph t) (v : Value) : t.held v = s.held v := by
  obtain ⟨now, roots, rfl⟩ := ht
  cases v <;> rfl

theorem Acyclic.congr {t : Store} (ht : s.SameGraph t) (h : s.Acyclic root) : t.Acyclic root where
  has hv ho := (ht.has_iff _).2 (h.has ((ht.reaches _ _).1 hv) ho)
  noReturn hv hw := by
    rw [ht.held] at hw
    rw [ht.reaches] at hv ⊢
    exact h.noReturn hv hw

/-! ## Depth -/

/-- At most `n` objects are inside one another, the value itself included. -/
def Shallow (s : Store) : Nat → Value → Prop
  | 0, v => v.isObject = false
  | n + 1, v => ∀ w ∈ s.held v, s.Shallow n w

theorem shallow_of_not_isObject (h : v.isObject = false) (n : Nat) : s.Shallow n v := by
  cases n with
  | zero => exact h
  | succ n =>
    intro w hw
    rw [held_eq_nil h] at hw
    cases hw

theorem Shallow.mono (h : s.Shallow n v) (hnm : n ≤ m) : s.Shallow m v := by
  induction m generalizing n v with
  | zero => rwa [Nat.le_zero.1 hnm] at h
  | succ m ih =>
    cases n with
    | zero => exact shallow_of_not_isObject h _
    | succ n => exact fun w hw => ih (h w hw) (Nat.le_of_succ_le_succ hnm)

theorem Shallow.exists_succ (h : s.Shallow n v) (hobject : v.isObject = true) : ∃ k, n = k + 1 := by
  cases n with
  | zero => exact absurd hobject (Bool.eq_false_iff.1 h)
  | succ n => exact ⟨n, rfl⟩

theorem Shallow.held (h : s.Shallow n v) (hw : w ∈ s.held v) : s.Shallow n w := by
  cases n with
  | zero =>
    rw [held_eq_nil h] at hw
    cases hw
  | succ n => exact (h w hw).mono (Nat.le_succ n)

theorem Shallow.reaches (h : s.Shallow n v) (hw : s.Reaches v w) : s.Shallow n w := by
  obtain ⟨route, hw⟩ := hw
  induction route generalizing v with
  | nil => exact Option.some.inj hw ▸ h
  | cons x route ih =>
    obtain ⟨u, hu, hw⟩ := Option.bind_eq_some_iff.1 hw
    exact ih (h.held (mem_held_of_hop hu)) hw

/-- On a cycle the depth would go down forever. -/
theorem Shallow.noReturn (h : s.Shallow n v) (hw : w ∈ s.held v) : ¬ s.Reaches w v := by
  induction n with
  | zero =>
    rw [held_eq_nil h] at hw
    cases hw
  | succ n ih => exact fun hback => ih ((h w hw).reaches hback) hback

theorem acyclic_of_shallow (h : s.Shallow n root)
    (has : ∀ v o, s.Reaches root v → v.place? = some o → s.Has o) : s.Acyclic root where
  has hv ho := has _ _ hv ho
  noReturn hv hw := (h.reaches hv).noReturn hw

/-! ## The depth of a graph without cycles -/

/-- The number of an object among all objects of a store. -/
def number (s : Store) : Value → Nat
  | .list id => id
  | .map id => s.lists.size + id
  | .bean id => s.lists.size + s.maps.size + id
  | .cell id => s.lists.size + s.maps.size + s.beans.size + id
  | _ => 0

/-- The value is an object of the store. -/
def IsOwn (s : Store) (v : Value) : Prop := ∃ o, v.place? = some o ∧ s.Has o

theorem number_lt (h : s.IsOwn v) : s.number v < s.objectCount := by
  obtain ⟨o, ho, hhas⟩ := h
  cases v <;> cases ho <;> simp only [Has] at hhas <;> simp only [number, objectCount] <;> omega

theorem number_injective (hv : s.IsOwn v) (hw : s.IsOwn w) (h : s.number v = s.number w) :
    v = w := by
  obtain ⟨o, ho, hhas⟩ := hv
  obtain ⟨o', ho', hhas'⟩ := hw
  cases v <;> cases ho <;> cases w <;> cases ho' <;> simp only [Has] at hhas hhas' <;>
    simp only [number] at h <;> first | omega | congr <;> omega

/-- There are no more objects than the store counts. -/
theorem length_le_objectCount {vs : List Value} (hown : ∀ v ∈ vs, s.IsOwn v) (hnodup : vs.Nodup) :
    vs.length ≤ s.objectCount := by
  have hnumbers : (vs.map s.number).Nodup :=
    hnodup.map_on fun v hv w hw h => number_injective (hown v hv) (hown w hw) h
  have hbelow : vs.map s.number ⊆ List.range s.objectCount := by
    intro i hi
    obtain ⟨v, hv, rfl⟩ := List.mem_map.1 hi
    exact List.mem_range.2 (number_lt (hown v hv))
  simpa using (List.subperm_of_subset hnumbers hbelow).length_le

/-- The objects of a store, each of them once, that a walk came through on its way to a value. -/
structure Trail (s : Store) (seen : List Value) (v : Value) : Prop where
  own : ∀ u ∈ seen, s.IsOwn u
  nodup : seen.Nodup
  leads : ∀ u ∈ seen, ∃ w ∈ s.held u, s.Reaches w v

section Acyclic

variable (h : s.Acyclic root) {seen : List Value}

include h

theorem Acyclic.isOwn (hv : s.Reaches root v) (hobject : v.isObject = true) : s.IsOwn v := by
  obtain ⟨o, ho⟩ := Option.isSome_iff_exists.1 (v.isSome_place?.trans hobject)
  exact ⟨o, ho, h.has hv ho⟩

/-- A walk meets none of the objects that it came through again. -/
theorem Acyclic.nodup_cons (hv : s.Reaches root v) (ht : s.Trail seen v) : (v :: seen).Nodup := by
  refine List.nodup_cons.2 ⟨fun hmem => ?_, ht.nodup⟩
  obtain ⟨w, hw, hback⟩ := ht.leads v hmem
  exact h.noReturn hv hw hback

theorem Acyclic.trail_cons (hv : s.Reaches root v) (ht : s.Trail seen v) (hw : w ∈ s.held v) :
    s.Trail (v :: seen) w where
  own := List.forall_mem_cons.2 ⟨h.isOwn hv (isObject_of_mem_held hw), ht.own⟩
  nodup := h.nodup_cons hv ht
  leads := List.forall_mem_cons.2 ⟨⟨w, hw, .refl s w⟩, fun u hu => by
    obtain ⟨x, hx, hxv⟩ := ht.leads u hu
    exact ⟨x, hx, hxv.trans (reaches_of_mem_held hw)⟩⟩

/-- Below a trail the graph is as deep at most as there are objects left. -/
theorem Acyclic.shallow_below (hv : s.Reaches root v) (ht : s.Trail seen v)
    (hn : s.objectCount ≤ seen.length + n) : s.Shallow n v := by
  induction n generalizing v seen with
  | zero =>
    rw [Shallow, Bool.eq_false_iff]
    intro hobject
    have hlength := length_le_objectCount
      (List.forall_mem_cons.2 ⟨h.isOwn hv hobject, ht.own⟩) (h.nodup_cons hv ht)
    rw [List.length_cons] at hlength
    omega
  | succ n ih =>
    intro w hw
    refine ih (hv.trans (reaches_of_mem_held hw)) (h.trail_cons hv ht hw) ?_
    rw [List.length_cons]
    omega

/-- **A graph without cycles is no deeper than its store is large.** -/
theorem Acyclic.shallow : s.Shallow s.objectCount root :=
  h.shallow_below (.refl s root) ⟨by simp, .nil, by simp⟩ (Nat.le_add_left ..)

end Acyclic

end Store

/-! ## The depth of a child -/

namespace Pointer

variable {s : Store} {p q : Pointer} {v w : Value} {n : Nat}

theorem select_element {l i : Nat}
    (hend : s.endUpTo? (Store.maxIndirections - 1) v = some (.list l)) :
    s.select v (.element i) = ((s.lists.get l)[i]?).getD .null := by
  simp [Store.select, Index.place?, Store.items?_of_endUpTo? hend]

/-- The item of a list that a pointer leads to. -/
theorem immediate_item {l : Nat} (hend : p.node.end? s = some (.list l)) (name : Option QName)
    (i : Nat) : (p.item s l name i).node.immediate s = ((s.lists.get l)[i]?).getD .null := by
  rcases item_cases (s := s) p l name i with ⟨-, hq⟩ | ⟨hwhole, hindex, node, hn, hq, -, -⟩
  · rw [hq]
    exact Node.immediate_item
  · rw [hq]
    cases hp : p.node <;> simp only [hp, Node.atIndex?, Option.some.injEq, reduceCtorEq] at hn <;>
      subst hn <;> simp only [hp, Node.index] at hindex <;> subst hindex <;> rw [hp] at hend
    · exact select_element hend
    · simp [isWholeCollection, Node.isCollection, hp] at hwhole
    · exact select_element hend
    · obtain rfl : _ = l := Value.list.inj (Option.some.inj hend)
      exact Node.immediate_item

theorem IsChild.exists_end (h : IsChild s p q) : ∃ v, p.node.end? s = some v := by
  cases h with
  | slot hend => exact ⟨_, hend⟩
  | item hend => exact ⟨_, hend⟩

/-- What a child names is inside what its parent shows. -/
theorem IsChild.exists_immediate (h : IsChild s p q) (hp : p.node.end? s = some v) :
    ∃ u ∈ s.held v, s.Reaches u (q.node.immediate s) := by
  induction h generalizing v with
  | @slot p h node hend hnode =>
    obtain rfl := Option.some.inj (hend.symm.trans hp)
    obtain ⟨name, u, hentry, hnode⟩ := Store.mem_childNodes.1 hnode
    obtain ⟨index, rfl⟩ := Store.mem_slotNodes hnode
    have hget := Table.get?_eq_some_iff.2 hentry
    refine ⟨u, by cases h <;> exact List.mem_map.2 ⟨_, hentry, rfl⟩, ?_⟩
    rw [Store.mem_slotNodes_iff] at hnode
    split at hnode
    · obtain rfl := hnode
      exact (Node.immediate_slot_whole hget).symm ▸ .refl s u
    · next items hitems =>
      obtain ⟨i, hi, rfl⟩ := hnode
      rw [node_child, Node.immediate_slot_element hget hitems]
      exact (Store.Reaches.refl s u).items (i := i) hitems (by simp [hi])
  | @item p q l i hend hi hq' ih =>
    obtain rfl := Option.some.inj (hend.symm.trans hp)
    obtain ⟨u, hend'⟩ := hq'.exists_end
    obtain ⟨x, hx, hxq⟩ := ih hend'
    refine ⟨(s.lists.get l)[i], List.getElem_mem hi, ?_⟩
    have hitem : (p.item s l p.node.name? i).node.immediate s = (s.lists.get l)[i] := by
      rw [immediate_item hend, List.getElem?_eq_getElem hi, Option.getD_some]
    exact (hitem ▸ Node.reaches_end hend').trans ((Store.reaches_of_mem_held hx).trans hxq)

/-- What a child shows is inside what its parent shows. -/
theorem IsChild.exists_held (h : IsChild s p q) (hp : p.node.end? s = some v)
    (hq : q.node.end? s = some w) : ∃ u ∈ s.held v, s.Reaches u w := by
  obtain ⟨u, hu, hreach⟩ := h.exists_immediate hp
  exact ⟨u, hu, hreach.trans (Node.reaches_end hq)⟩

/-- **The value of a child is less deep than that of its parent.** -/
theorem IsChild.shallow (h : IsChild s p q) (hp : p.node.end? s = some v)
    (hv : s.Shallow (n + 1) v) (hq : q.node.end? s = some w) : s.Shallow n w := by
  obtain ⟨u, hu, huw⟩ := h.exists_held hp hq
  exact (hv u hu).reaches huw

/-- What the children of a pointer show is less deep than what the pointer shows. -/
theorem shallow_of_mem_children {n : Nat} {p : Pointer} {v : Value} {cs : List Pointer}
    (hp : p.node.IsPlain) (hv : p.value s .standard = .ok v) (hn : s.Shallow (n + 1) v)
    (hcs : p.children s .standard = .ok cs) :
    ∀ c ∈ cs, ∀ u, c.node.IsPlain → c.value s .standard = .ok u → s.Shallow n u :=
  fun _ hc _ hplain hu => (isChild_of_mem hp hcs hc).shallow ((value_eq_ok_iff hp).1 hv) hn
    ((value_eq_ok_iff hplain).1 hu)

end Pointer

end PathQuery
