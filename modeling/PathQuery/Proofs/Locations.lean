import PathQuery.Proofs.FlatGraphs

/-!
# Where location paths lead

From the root of a graph, whether it is an object or a list, location paths lead along chains of
slots, attributes and items that exist.

* names: `Value.IsStructured`, `Store.HasIndex`, `Located`, `Pointer.IsLocated`.
* **`along_isLocated`**: every axis leads on from such chains to such chains.
-/

namespace PathQuery

/-! ## Chains of slots, attributes and items -/

/-- The value is a map, a record or a list. -/
def Value.IsStructured (v : Value) : Prop := (∃ h : Holder, v = h.value) ∨ ∃ l, v = .list l

/-- A slot that holds the value can be shown at the index: whole, unless its items stand for it, or
at one of the items. Attributes are shown whole, whatever they hold. -/
def Store.HasIndex (s : Store) (v : Value) (isAttribute : Bool) : Index → Prop
  | .whole => isAttribute = true ∨ s.items? v = none
  | .element i => ∃ items, s.items? v = some items ∧ ∃ k : Nat, k < items.length ∧ i = k

theorem Store.HasIndex.index_cases {s : Store} {v : Value} {a : Bool} {index : Index}
    (h : s.HasIndex v a index) :
    index = .whole ∨ ∃ items, s.items? v = some items ∧ ∃ i : Nat, index = .element i := by
  cases index with
  | whole => exact .inl rfl
  | element =>
    obtain ⟨items, hitems, i, -, rfl⟩ := h
    exact .inr ⟨items, hitems, i, rfl⟩

/-- A child is shown at an index that there is. -/
theorem Store.hasIndex_of_mem {s : Store} {h : Holder} {name : String} {v : Value} {index : Index}
    (hnode : .slot h (.bare name) index false ∈ s.slotNodes h name v) :
    s.HasIndex v false index := by
  rw [Store.mem_slotNodes_iff] at hnode
  split at hnode
  · next hitems =>
    subst hnode
    exact .inr hitems
  · next items hitems =>
    obtain ⟨i, hi, rfl⟩ := hnode
    exact ⟨items, hitems, i, hi, rfl⟩

/-- A chain of nodes, the nearest first, that leads down from the root of a graph through slots,
attributes and items that exist, and the steps of its path. An item of a list at the root stands for
the root. -/
inductive Located (s : Store) (root : Value) : List Node → List Segment → Prop
  | object {h : Holder} (hroot : root = h.value) : Located s root [h.value.node none] []
  | list {l : Nat} (hroot : root = .list l) : Located s root [.items l none .whole] []
  | rootItem {l i : Nat} (hroot : root = .list l) (hi : i < (s.lists.get l).length) :
    Located s root [.items l none (.element i)] [⟨".", [i + 1]⟩]
  | slot {n : Node} {ns : List Node} {gs : List Segment} {h : Holder} {name : String} {v : Value}
    {index : Index} {a : Bool} (hn : Located s root (n :: ns) gs) (hend : n.end? s = some h.value)
    (hentry : (s.slots h).get? name = some v) (hindex : s.HasIndex v a index) :
    Located s root (.slot h (.bare name) index a :: n :: ns)
      (gs ++ [⟨Node.label (.bare name) a, index.places⟩])
  | item {n : Node} {ns : List Node} {gs : List Segment} {name : String} {places : List Nat}
    {l i : Nat} (hn : Located s root (n :: ns) (gs ++ [⟨name, places⟩]))
    (hindex : n.index ≠ .whole) (hend : n.end? s = some (.list l))
    (hi : i < (s.lists.get l).length) :
    Located s root (.items l n.name? (.element i) :: n :: ns) (gs ++ [⟨name, places ++ [i + 1]⟩])

namespace Located

variable {s t : Store} {root v : Value} {n m : Node} {ns ns' : List Node} {gs gs' : List Segment}

theorem congr (ht : s.SameGraph t) (h : Located s root ns gs) : Located t root ns gs := by
  induction h with
  | object hroot => exact .object hroot
  | list hroot => exact .list hroot
  | rootItem hroot hi => exact .rootItem hroot (by rwa [ht.lists])
  | @slot n ns gs h name v index a _ hend hentry hindex ih =>
    refine .slot ih (by rwa [ht.end?]) (by rwa [ht.slots]) ?_
    cases index <;> simpa only [Store.HasIndex, ht.items?] using hindex
  | item _ hindex hend hi ih => exact .item ih hindex (by rwa [ht.end?]) (by rwa [ht.lists])

theorem of_root (hroot : root.IsStructured) : Located s root [root.node none] [] := by
  rcases hroot with ⟨h, rfl⟩ | ⟨l, rfl⟩
  · exact .object rfl
  · exact .list rfl

theorem isPlain (h : Located s root (n :: ns) gs) : n.IsPlain := by
  cases h with
  | object => exact Holder.isPlain_node _
  | list | rootItem | slot | item => trivial

theorem linked (h : Located s root ns gs) : Linked s (root.node none) ns := by
  induction h with
  | object hroot => exact hroot ▸ .root (.inl rfl)
  | list hroot => exact hroot ▸ .root (.inl rfl)
  | rootItem hroot _ => exact .root (.inr ⟨_, by rw [hroot]; rfl⟩)
  | slot _ hend _ _ ih => exact .link hend ih
  | item _ _ hend _ ih => exact .link hend ih

theorem tail (h : Located s root (m :: n :: ns) gs) : ∃ gs', Located s root (n :: ns) gs' := by
  cases h with
  | slot hn => exact ⟨_, hn⟩
  | item hn => exact ⟨_, hn⟩

/-- Only an item has numbers behind its name. -/
theorem places_ne_nil (h : Located s root (n :: ns) gs) (hindex : n.index ≠ .whole) :
    ∃ gs' name places, gs = gs' ++ [⟨name, places⟩] ∧ places ≠ [] := by
  cases h with
  | @object h => cases h <;> exact absurd rfl hindex
  | list => exact absurd rfl hindex
  | rootItem => exact ⟨[], _, _, rfl, by simp⟩
  | @slot _ _ gs _ _ _ index =>
    cases index with
    | whole => exact absurd rfl hindex
    | element => exact ⟨gs, _, _, rfl, by simp [Index.places]⟩
  | item => exact ⟨_, _, _, rfl, by simp⟩

/-- What shows a list is one item of a list, unless it is the whole of the list. -/
theorem index_ne_whole (h : Located s root (n :: ns) gs) {l : Nat}
    (hend : n.end? s = some (.list l)) (hwhole : (n.index == .whole && n.isCollection s) = false) :
    n.index ≠ .whole := by
  rintro hindex
  rw [hindex, beq_self_eq_true, Bool.true_and] at hwhole
  cases h with
  | @object h => cases h <;> cases hend
  | list => cases hwhole
  | rootItem => cases hindex
  | @slot _ _ _ h name v index a _ _ hentry =>
    obtain rfl : index = .whole := hindex
    rw [Node.end?_slot, Node.immediate_slot_whole hentry] at hend
    have hbase : (Node.slot h (.bare name) .whole a).base s = v := Store.slot_eq hentry
    rw [Node.isCollection, hbase, Store.items?_of_endUpTo? hend] at hwhole
    cases hwhole
  | item => cases hindex

/-- The whole of a list moves to its items. -/
theorem atIndex (h : Located s root (n :: ns) gs) {items : List Value} {i : Nat}
    (hwhole : n.index = .whole) (hitems : s.items? (n.base s) = some items) (hi : i < items.length)
    (hm : n.atIndex? (.element i) = some m) : ∃ gs', Located s root (m :: ns) gs' := by
  cases h with
  | @object h => cases h <;> cases hm
  | @list l hroot =>
    obtain rfl := Option.some.inj hm
    obtain rfl := Option.some.inj hitems
    exact ⟨_, .rootItem hroot hi⟩
  | rootItem => cases hwhole
  | @slot _ _ _ h name v index a hn hend hentry =>
    obtain rfl := Option.some.inj hm
    rw [show (Node.slot h (.bare name) index a).base s = v from Store.slot_eq hentry] at hitems
    exact ⟨_, .slot hn hend hentry ⟨items, hitems, i, hi, rfl⟩⟩
  | item => cases hwhole

/-- The items of the whole of a list are those of the list that it shows. -/
theorem items?_base (h : Located s root (n :: ns) gs) {l : Nat} (hwhole : n.index = .whole)
    (hend : n.end? s = some (.list l)) : s.items? (n.base s) = some (s.lists.get l) := by
  cases h with
  | @object h => cases h <;> cases hend
  | list =>
    obtain ⟨⟩ := Option.some.inj hend
    rfl
  | rootItem => cases hwhole
  | @slot _ _ _ h name v index a _ _ hentry =>
    obtain rfl : index = .whole := hwhole
    rw [Node.end?_slot, Node.immediate_slot_whole hentry] at hend
    rw [show (Node.slot h (.bare name) .whole a).base s = v from Store.slot_eq hentry]
    exact Store.items?_of_endUpTo? hend
  | item => cases hwhole

/-- The whole of a collection has as many elements as there are items. -/
theorem length_eq (h : Located s root (n :: ns) gs) (hwhole : n.index = .whole)
    (hcollection : n.isCollection s = true) :
    ∃ items, s.items? (n.base s) = some items ∧ n.length s = items.length := by
  cases h with
  | @object h => cases h <;> cases hcollection
  | list => exact ⟨_, rfl, rfl⟩
  | rootItem => cases hwhole
  | @slot _ _ _ h name v index a =>
    obtain ⟨items, hitems⟩ := Option.isSome_iff_exists.1 hcollection
    obtain ⟨l, hl, rfl⟩ := Store.items?_eq_some_iff.1 hitems
    exact ⟨_, hitems, by simp only [Node.length, hl]⟩
  | item => cases hwhole

/-! ## What stands there can be reached -/

theorem reaches_immediate (h : Located s root ns gs) :
    ∀ n ∈ ns.head?, s.Reaches root (n.immediate s) := by
  induction h with
  | @object h hroot =>
    rintro n ⟨⟩
    rw [hroot]
    cases h <;> exact .refl ..
  | list hroot =>
    rintro n ⟨⟩
    exact hroot ▸ .refl ..
  | @rootItem l i hroot hi =>
    rintro n ⟨⟩
    rw [hroot, Node.immediate_item]
    exact ⟨_, Store.follow_item (i := i) (by simp [hi])⟩
  | @slot n ns gs h name v index a _ hend hentry hindex ih =>
    rintro _ ⟨⟩
    have hv := ((ih n rfl).trans (Node.reaches_end hend)).slot hentry
    cases index with
    | whole => rwa [Node.immediate_slot_whole hentry]
    | element i =>
      obtain ⟨items, hitems, k, hk, rfl⟩ := hindex
      rw [Node.immediate_slot_element hentry hitems]
      exact hv.items (i := k) hitems (by simp [hk])
  | @item n ns gs name places l i _ _ hend hi ih =>
    rintro _ ⟨⟩
    rw [Node.immediate_item]
    exact ((ih n rfl).trans (Node.reaches_end hend)).trans
      ⟨_, Store.follow_item (i := i) (by simp [hi])⟩

/-- A slot on the way has a name of a path step. -/
theorem isName (hnames : s.NamesReached root) {h : Holder} {name : String}
    (hn : Located s root (n :: ns) gs) (hend : n.end? s = some h.value)
    (hentry : (s.slots h).get? name = some v) : Grammar.IsName name :=
  hnames h name ((hn.reaches_immediate n rfl).trans (Node.reaches_end hend))
    (Table.has_iff.1 (Table.has_iff_get?.2 ⟨_, hentry⟩))

end Located

/-! ## Moving on -/

namespace Pointer

variable {s t : Store} {root : Value} {p q : Pointer} {cs : List Pointer}

/-- The pointer stands where location paths lead. -/
def IsLocated (s : Store) (root : Value) (p : Pointer) : Prop := ∃ gs, Located s root p.nodes gs

theorem isLocated_congr (ht : s.SameGraph t) : IsLocated s root = IsLocated t root := by
  funext p
  exact propext ⟨.imp fun _ h => h.congr ht, .imp fun _ h => h.congr ht.symm⟩

theorem IsLocated.linked (h : IsLocated s root p) : Linked s (root.node none) p.nodes :=
  h.choose_spec.linked

theorem IsLocated.isPlain (h : IsLocated s root p) : p.node.IsPlain := h.choose_spec.isPlain

/-- An item of a list stands there, if the list does. -/
theorem IsLocated.item {l i : Nat} (hp : IsLocated s root p)
    (hend : p.node.end? s = some (.list l)) (hi : i < (s.lists.get l).length) :
    IsLocated s root (p.item s l p.node.name? i) := by
  obtain ⟨gs, hp⟩ := hp
  rw [nodes_eq] at hp
  rcases item_cases (s := s) p l p.node.name? i with
    ⟨hwhole, hitem⟩ | ⟨hwhole, -, m, hm, hnode, habove, -⟩
  · have hindex := hp.index_ne_whole hend hwhole
    obtain ⟨gs, name, places, rfl, -⟩ := hp.places_ne_nil hindex
    rw [hitem]
    exact ⟨_, .item hp hindex hend hi⟩
  · simp only [isWholeCollection, Bool.and_eq_true, beq_iff_eq] at hwhole
    rw [IsLocated, nodes_eq, hnode, habove]
    exact hp.atIndex hwhole.1 (hp.items?_base hwhole.1 hend) hi hm

theorem IsChild.isLocated (h : IsChild s p q) (hp : IsLocated s root p) : IsLocated s root q := by
  induction h with
  | @slot p h node hend hnode =>
    obtain ⟨gs, hp⟩ := hp
    obtain ⟨name, v, hentry, hnode⟩ := Store.mem_childNodes.1 hnode
    obtain ⟨index, rfl⟩ := Store.mem_slotNodes hnode
    exact ⟨_, .slot hp hend (Table.get?_eq_some_iff.2 hentry) (Store.hasIndex_of_mem hnode)⟩
  | item hend hi _ ih => exact ih (hp.item hend hi)

theorem isLocated_attributes (hp : IsLocated s root p) (h : p.attributes s .standard = .ok cs)
    (hq : q ∈ cs) : IsLocated s root q := by
  rw [attributes_eq hp.isPlain] at h
  obtain ⟨v, hv, h⟩ := Except.bind_eq_ok_iff.1 h
  rw [value_eq_ok_iff hp.isPlain] at hv
  obtain rfl := Except.ok.inj h
  obtain ⟨node, hnode, rfl⟩ := List.mem_map.1 hq
  cases hh : v.holder? with
  | none => simp [hh] at hnode
  | some holder =>
    rw [Holder.value_of_holder? hh] at hv
    rw [hh, Option.map_some, Option.getD_some] at hnode
    obtain ⟨name, hname, rfl⟩ := List.mem_map.1 hnode
    obtain ⟨w, hentry⟩ := Table.has_iff_get?.1 (Table.has_iff.2 hname)
    obtain ⟨gs, hp⟩ := hp
    exact ⟨_, .slot hp hv hentry (.inl rfl)⟩

/-- Moves lead from located pointers to located pointers. -/
theorem kept_isLocated (s : Store) (root : Value) : Kept s .standard (IsLocated s root) where
  child hp h hq := (isChild_of_mem hp.isPlain h hq).isLocated hp
  binding hp h hq := by
    rw [namespaces_eq hp.isPlain] at h
    obtain ⟨_, -, h⟩ := Except.bind_eq_ok_iff.1 h
    obtain rfl := Except.ok.inj h
    simp at hq
  parent hp h := by
    obtain ⟨gs, hp⟩ := hp
    rw [nodes_parent? h] at hp
    exact hp.tail
  element {p q} hp h := by
    rw [elements] at h
    split at h
    · next hwhole =>
      obtain ⟨gs, hp⟩ := hp
      rw [nodes_eq] at hp
      simp only [isWholeCollection, Bool.and_eq_true, beq_iff_eq] at hwhole
      obtain ⟨i, hi, hq⟩ := List.mem_filterMap.1 h
      obtain ⟨items, hitems, hlength⟩ := hp.length_eq hwhole.1 hwhole.2
      obtain ⟨m, hm, hnodes⟩ := nodes_atIndex? hq
      rw [IsLocated, hnodes]
      exact hp.atIndex hwhole.1 hitems (hlength ▸ List.mem_range.1 hi) hm
    · exact List.mem_singleton.1 h ▸ hp

/-- **Every axis leads on** from located pointers to located pointers. -/
theorem along_isLocated (s : Store) (root : Value) (axis : Axis) :
    Environment.KeepsAlong s .standard (IsLocated s root) axis := by
  intro p q a hp ha hq
  by_cases haxis : axis = .attribute
  · subst haxis
    obtain ⟨qs, hqs, rfl⟩ := Except.map_eq_ok_iff.1 ha
    rw [Search.nodes_ofList] at hq
    exact isLocated_attributes hp hqs hq
  · exact (kept_isLocated s root).along haxis hp ha hq

end Pointer

end PathQuery
