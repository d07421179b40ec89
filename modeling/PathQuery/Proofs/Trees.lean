import PathQuery.Proofs.FlatGraphs

/-!
# Chains in trees

In a tree without lists in lists, the chain of an address is fixed by the object, list or cell that
it shows: every slot stands below one chain only.

* names: `Store.IsTree`, `Routed`, `SlotAt`.
* **`Routed.unique`**: a route comes from one chain. **`SlotAt.eq_of_list`**, **`eq_of_cell`**: a
  list or a cell is held by one slot.
-/

namespace PathQuery

/-- The graph below a value is a tree of maps, records, lists and cells: all its slots are named
like path steps, no list is an item of another, and all lists are short enough for their places to
be numbers exactly. -/
structure Store.IsTree (s : Store) (root : Value) : Prop where
  shaped : s.TreeShaped root
  names : s.NamesReached root
  records : ∀ b, s.Reaches root (.bean b) →
    (s.beans.get b).readOnly = [] ∧ (s.beans.get b).typed = []
  flat : ∀ l v, s.Reaches root (.list l) → v ∈ s.lists.get l → s.items? v = none
  short : ∀ l, s.Reaches root (.list l) → (s.lists.get l).length ≤ 2 ^ 53

/-- A tree stays a tree as time goes on. -/
theorem Store.IsTree.congr {s t : Store} {root : Value} (h : s.IsTree root)
    (ht : s.SameGraph t) : t.IsTree root := by
  constructor
  · simpa only [TreeShaped, ht.follow] using h.shaped
  · exact h.names.congr ht
  · simpa only [ht.reaches, ht.beans] using h.records
  · simpa only [ht.reaches, ht.lists, ht.items?] using h.flat
  · simpa only [ht.reaches, ht.lists] using h.short

/-! ## Addresses in trees -/

namespace Addressed

variable {s : Store} {root : Holder} {n : Node} {ns : List Node} {gs : List Segment}

/-- Without lists in lists, every step has one number at most, and it is exact. -/
theorem isSimple (ht : s.IsTree root.value) (h : Addressed s root ns gs) :
    ∀ g ∈ gs, g.places.length ≤ 1 ∧ ∀ n ∈ g.places, n ≤ 2 ^ 53 := by
  induction h with
  | root => simp
  | @slot n ns gs h name v index hn hend hentry hnode ih =>
    intro g hg
    rcases List.mem_append.1 hg with hg | hg
    · exact ih g hg
    · obtain rfl := List.mem_singleton.1 hg
      rw [Store.mem_slotNodes_iff] at hnode
      split at hnode
      · subst hnode
        simp [Index.places]
      · next items hitems =>
        obtain ⟨i, hi, rfl⟩ := hnode
        obtain ⟨l, hl, rfl⟩ := Store.items?_eq_some_iff.1 hitems
        have hshort := ht.short l (hl ▸ ((hn.reaches hend).slot hentry).unwrap)
        simp only [Index.places, List.length_singleton, le_refl, List.mem_singleton, true_and]
        omega
  | item hn hend => exact absurd hend (hn.end?_ne_list ht.flat _)

end Addressed

/-! ## Routes of chains -/

/-- The moves from the value in a slot to the end of the node at an index of it. -/
def Index.Leads (moves : List Hop) : Index → Prop
  | whole => ∃ k, moves = List.replicate k .inside
  | element i => ∃ k k' j, i = (j : Nat) ∧
      moves = List.replicate k .inside ++ .item j :: List.replicate k' .inside

theorem Index.Leads.noKey {moves : List Hop} {index : Index} (h : index.Leads moves) :
    Hop.NoKey moves := by
  cases index with
  | whole =>
    obtain ⟨k, rfl⟩ := h
    exact Hop.noKey_replicate k
  | element i =>
    obtain ⟨k, k', j, -, rfl⟩ := h
    exact (Hop.noKey_replicate k).append ((Hop.noKey_item j).append (Hop.noKey_replicate k'))

/-- A chain of slots, the nearest first, with the route to the object that it leads to. -/
inductive Routed (s : Store) (root : Holder) : List Node → List Hop → Holder → Prop
  | root : Routed s root [root.value.node none] [] root
  | slot {ns : List Node} {route moves : List Hop} {h h' : Holder} {name : String} {v : Value}
    {index : Index} (hns : Routed s root ns route h) (hentry : (s.slots h).get? name = some v)
    (hnode : .slot h (.bare name) index false ∈ s.slotNodes h name v)
    (hmoves : index.Leads moves) (hlead : s.follow v moves = some h'.value) :
    Routed s root (.slot h (.bare name) index false :: ns) (route ++ .key name :: moves) h'

namespace Hop

theorem item_unique {k k' l l' i j : Nat}
    (h : List.replicate k inside ++ item i :: List.replicate l inside =
      List.replicate k' inside ++ item j :: List.replicate l' inside) : i = j := by
  induction k generalizing k' with
  | zero =>
    cases k' with
    | zero => simp_all
    | succ k' => simp [List.replicate_succ] at h
  | succ k ih =>
    cases k' with
    | zero => simp [List.replicate_succ] at h
    | succ k' =>
      simp only [List.replicate_succ, List.cons_append, List.cons.injEq, true_and] at h
      exact ih h

end Hop

namespace Store

variable {s : Store} {h : Holder} {name : String} {v : Value} {i j : Index}

/-- Nodes of one slot that the same moves lead out of are one node. -/
theorem index_unique {moves : List Hop} (hi : .slot h (.bare name) i false ∈ s.slotNodes h name v)
    (hj : .slot h (.bare name) j false ∈ s.slotNodes h name v) (hmi : i.Leads moves)
    (hmj : j.Leads moves) : i = j := by
  rw [mem_slotNodes_iff] at hi hj
  split at hi
  · next hitems =>
    rw [hitems] at hj
    exact hi.trans hj.symm
  · next items hitems =>
    rw [hitems] at hj
    obtain ⟨a, -, rfl⟩ := hi
    obtain ⟨b, -, rfl⟩ := hj
    obtain ⟨k, l, a', ha, rfl⟩ := hmi
    obtain ⟨k', l', b', hb, hmoves⟩ := hmj
    rw [ha, hb, Hop.item_unique hmoves]

end Store

namespace Routed

variable {s : Store} {root h h' : Holder} {ns ns' : List Node} {route route' : List Hop}

theorem follow (hr : Routed s root ns route h) : s.follow root.value route = some h.value := by
  induction hr with
  | root => rfl
  | slot _ hentry _ _ hlead ih =>
    exact Store.follow_trans ih (Store.follow_trans (Store.follow_key hentry) hlead)

/-- **A route comes from one chain.** -/
theorem unique (hr : Routed s root ns route h) (hr' : Routed s root ns' route h') :
    ns = ns' ∧ h = h' := by
  induction hr generalizing ns' h' with
  | root =>
    generalize hroute : ([] : List Hop) = route at hr'
    cases hr' with
    | root => exact ⟨rfl, rfl⟩
    | slot => simp at hroute
  | @slot ns route moves h h₁ name v index hns hentry hnode hmoves hlead ih =>
    generalize hroute : route ++ .key name :: moves = whole at hr'
    cases hr' with
    | root => simp at hroute
    | @slot ns' route' moves' h' h₁' name' v' index' hns' hentry' hnode' hmoves' hlead' =>
      obtain ⟨rfl, rfl, rfl⟩ := Hop.split_unique hmoves.noKey hmoves'.noKey hroute
      obtain ⟨rfl, rfl⟩ := ih hns'
      obtain rfl := Option.some.inj (hentry.symm.trans hentry')
      obtain rfl := Store.index_unique hnode hnode' hmoves hmoves'
      exact ⟨rfl, Holder.value_injective (Option.some.inj (hlead.symm.trans hlead'))⟩

end Routed

/-- A slot, or one item of the list in it, below a chain. -/
structure SlotAt (s : Store) (root : Holder) (ns : List Node) (h : Holder) (name : String)
    (index : Index) : Prop where
  routed : ∃ route, Routed s root ns route h
  node : ∃ v, (s.slots h).get? name = some v ∧
    .slot h (.bare name) index false ∈ s.slotNodes h name v

namespace Addressed

variable {s : Store} {root : Holder} {m n : Node} {ns : List Node} {gs : List Segment}

/-- In a tree, the chain of an address goes along a route. -/
theorem routed (ht : s.IsTree root.value) (h : Addressed s root ns gs) {h' : Holder}
    (hend : ∀ n ∈ ns.head?, n.end? s = some h'.value) : ∃ route, Routed s root ns route h' := by
  induction h generalizing h' with
  | root =>
    have hroot : (root.value.node none).end? s = some root.value := by cases root <;> rfl
    obtain rfl := Holder.value_injective (Option.some.inj (hroot.symm.trans (hend _ rfl)))
    exact ⟨_, .root⟩
  | @slot n ns gs h name v index hn hend' hentry hnode ih =>
    obtain ⟨route, hroute⟩ := ih fun _ h => Option.some.inj h ▸ hend'
    have hlead := hend _ rfl
    rw [Node.end?_slot] at hlead
    have hmem := hnode
    rw [Store.mem_slotNodes_iff] at hnode
    split at hnode
    · subst hnode
      rw [Node.immediate_slot_whole hentry] at hlead
      obtain ⟨k, hk⟩ := Store.follow_endUpTo? hlead
      exact ⟨_, .slot hroute hentry hmem ⟨k, rfl⟩ hk⟩
    · next items hitems =>
      obtain ⟨i, hi, rfl⟩ := hnode
      rw [Node.immediate_slot_element hentry hitems, List.getElem?_eq_getElem hi,
        Option.getD_some] at hlead
      obtain ⟨l, hl, rfl⟩ := Store.items?_eq_some_iff.1 hitems
      obtain ⟨k, hk⟩ := Store.follow_unwrapUpTo s Store.maxIndirections v
      obtain ⟨k', hk'⟩ := Store.follow_endUpTo? hlead
      refine ⟨_, .slot hroute hentry hmem ⟨k, k', i, rfl, rfl⟩ (Store.follow_trans hk ?_)⟩
      rw [show s.unwrapUpTo Store.maxIndirections v = .list l from hl]
      exact Store.follow_trans (Store.follow_item (List.getElem?_eq_getElem hi)) hk'
  | item hn hend' => exact absurd hend' (hn.end?_ne_list ht.flat _)

/-- In a tree, everything but the root is a slot or one item of the list in it. -/
theorem slotAt (ht : s.IsTree root.value) (h : Addressed s root (m :: n :: ns) gs) :
    ∃ h name index, m = .slot h (.bare name) index false ∧
      SlotAt s root (n :: ns) h name index := by
  cases h with
  | @slot _ _ _ h name v index hn hend hentry hnode =>
    exact ⟨h, name, index, rfl, hn.routed ht fun _ h => Option.some.inj h ▸ hend, v, hentry, hnode⟩
  | item hn hend => exact absurd hend (hn.end?_ne_list ht.flat _)

end Addressed

namespace SlotAt

variable {s : Store} {root h h' : Holder} {ns ns' : List Node} {name name' : String}
  {index index' : Index}

/-- An object has one chain. -/
theorem eq_of_holder (ht : s.IsTree root.value) (a : SlotAt s root ns h name index)
    (b : SlotAt s root ns' h name' index') : ns = ns' := by
  obtain ⟨route, ha⟩ := a.routed
  obtain ⟨route', hb⟩ := b.routed
  obtain rfl := ht.shaped h.value route route' (by simp) ha.follow hb.follow
  exact (ha.unique hb).1

/-- **What is held by a slot is held by no other.** -/
theorem eq_of_moves (ht : s.IsTree root.value) (a : SlotAt s root ns h name index)
    (b : SlotAt s root ns' h' name' index') {o : Value} {moves moves' : List Hop}
    (ho : o.isObject = true) (hm : Hop.NoKey moves) (hm' : Hop.NoKey moves')
    (hlead : s.follow (s.slot h name) moves = some o)
    (hlead' : s.follow (s.slot h' name') moves' = some o) :
    ns = ns' ∧ h = h' ∧ name = name' ∧ moves = moves' := by
  obtain ⟨⟨route, ha⟩, v, hv, -⟩ := a
  obtain ⟨⟨route', hb⟩, v', hv', -⟩ := b
  rw [Store.slot_eq hv] at hlead
  rw [Store.slot_eq hv'] at hlead'
  have hroute := ht.shaped o (route ++ .key name :: moves) (route' ++ .key name' :: moves') ho
    (Store.follow_trans ha.follow (Store.follow_trans (Store.follow_key hv) hlead))
    (Store.follow_trans hb.follow (Store.follow_trans (Store.follow_key hv') hlead'))
  obtain ⟨rfl, rfl, rfl⟩ := Hop.split_unique hm hm' hroute
  obtain ⟨rfl, rfl⟩ := ha.unique hb
  exact ⟨rfl, rfl, rfl, rfl⟩

/-- A list is held by one slot. -/
theorem eq_of_list (ht : s.IsTree root.value) (a : SlotAt s root ns h name index)
    (b : SlotAt s root ns' h' name' index') {l : Nat}
    (hl : s.unwrap (s.slot h name) = .list l) (hl' : s.unwrap (s.slot h' name') = .list l) :
    ns = ns' ∧ h = h' ∧ name = name' := by
  obtain ⟨k, hk⟩ := Store.follow_unwrapUpTo s Store.maxIndirections (s.slot h name)
  obtain ⟨k', hk'⟩ := Store.follow_unwrapUpTo s Store.maxIndirections (s.slot h' name')
  obtain ⟨hns, hh, hname, -⟩ := a.eq_of_moves ht b (o := .list l) rfl (Hop.noKey_replicate k)
    (Hop.noKey_replicate k') (hk.trans (congrArg some hl)) (hk'.trans (congrArg some hl'))
  exact ⟨hns, hh, hname⟩

/-- A cell that a slot holds is seen from no other slot, and from no item of a list. -/
theorem eq_of_cell (ht : s.IsTree root.value) (a : SlotAt s root ns h name index)
    (b : SlotAt s root ns' h' name' index') {c : Nat} {moves : List Hop}
    (hc : s.slot h name = .cell c) (hm : Hop.NoKey moves)
    (hlead : s.follow (s.slot h' name') moves = some (.cell c)) :
    h = h' ∧ name = name' ∧ moves = [] := by
  have hself : s.follow (s.slot h name) [] = some (.cell c) := congrArg some hc
  obtain ⟨-, hh, hname, hmoves⟩ := a.eq_of_moves ht b rfl (fun _ h => by simp at h) hm hself hlead
  exact ⟨hh, hname, hmoves.symm⟩

end SlotAt

end PathQuery
