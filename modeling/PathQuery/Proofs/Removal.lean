import PathQuery.Proofs.Resolving
import PathQuery.Proofs.Trees

/-!
# Graphs without some of their slots

The graph that is left when a set of nodes is taken out of it, all at once, and what removing one
more node after another does to it.

* names: `Pool.mapPlaces`, `Table.filterNames`, `Table.mapNamed`; `Node.takesItem`,
  `Node.takesSlot`, `Node.emptiesCell`, `Store.without`.
* **`Store.without`** takes out the chosen items of lists and slots of maps, empties the chosen
  slots of beans, through the cell if they hold one, and keeps everything else.
* **`remove_without`**: removing a node takes one more node out.
-/

namespace PathQuery

/-! ## Changing every place -/

namespace Pool

universe u

variable {α : Type u} [Inhabited α] {p : Pool α} {f g : Nat → α → α} {i j : Nat} {a : α}

omit [Inhabited α] in
/-- Every place changed by its number. -/
def mapPlaces (f : Nat → α → α) (p : Pool α) : Pool α := ⟨p.places.mapIdx f⟩

theorem get_mapPlaces (hf : f i default = default) : (p.mapPlaces f).get i = f i (p.get i) := by
  simp only [get, mapPlaces, Array.getD_eq_getD_getElem?, Array.getElem?_mapIdx]
  cases p.places[i]? <;> simp [hf]

/-- Writing one place of a changed pool is changing it otherwise. -/
theorem set_mapPlaces (hne : ∀ j ≠ i, g j (p.get j) = f j (p.get j)) (hi : g i (p.get i) = a) :
    (p.mapPlaces f).set i a = p.mapPlaces g := by
  simp only [set, mapPlaces, Pool.mk.injEq]
  apply Array.ext
  · simp
  · intro j hj _
    simp only [Array.size_setIfInBounds, Array.size_mapIdx] at hj
    have hget : p.get j = p.places[j] := by simp [get, Array.getD, hj]
    rw [Array.getElem_setIfInBounds (by simpa using hj)]
    split
    · next h =>
      subst h
      rw [← hi, hget, Array.getElem_mapIdx]
    · next h => rw [Array.getElem_mapIdx, Array.getElem_mapIdx, ← hget, hne j (Ne.symm h)]

theorem mapPlaces_congr (h : ∀ j, g j (p.get j) = f j (p.get j)) :
    p.mapPlaces g = p.mapPlaces f := by
  simp only [mapPlaces, Pool.mk.injEq]
  refine Array.ext (by simp) fun j hj _ => ?_
  have hj' : j < p.places.size := by simpa using hj
  have hget : p.get j = p.places[j] := by simp [get, Array.getD, hj']
  rw [Array.getElem_mapIdx, Array.getElem_mapIdx, ← hget, h]

omit [Inhabited α] in
theorem mapPlaces_eq_self (h : ∀ i a, f i a = a) : p.mapPlaces f = p := by
  obtain ⟨places⟩ := p
  exact congrArg Pool.mk (Array.ext (by simp) fun i hi hi' => by rw [Array.getElem_mapIdx, h])

end Pool

namespace Table

universe u

variable {α : Type u} {t : Table α} {k : String} {v : α}

/-- The slots whose names pass a test. -/
def filterNames (test : String → Bool) (t : Table α) : Table α :=
  ⟨t.entries.filter fun e => test e.1, t.nodup.sublist (List.filter_sublist.map Prod.fst)⟩

/-- Every value changed by its name. -/
def mapNamed (f : String → α → α) (t : Table α) : Table α :=
  ⟨t.entries.map fun e => (e.1, f e.1 e.2), by simpa [Function.comp_def] using t.nodup⟩

theorem ext {t u : Table α} (h : t.entries = u.entries) : t = u := by
  cases t
  cases u
  simpa using h

theorem get?_filterNames {test : String → Bool} (hk : test k = true) :
    (t.filterNames test).get? k = t.get? k := by
  ext v
  rw [get?_eq_some_iff, get?_eq_some_iff]
  simp [filterNames, hk]

theorem get?_mapNamed (f : String → α → α) : (t.mapNamed f).get? k = (t.get? k).map (f k) := by
  ext v
  simp only [Option.map_eq_some_iff, get?_eq_some_iff, mapNamed, List.mem_map, Prod.mk.injEq,
    Prod.exists]
  constructor
  · rintro ⟨k', w, hw, rfl, rfl⟩
    exact ⟨w, hw, rfl⟩
  · rintro ⟨w, hw, rfl⟩
    exact ⟨k, w, hw, rfl, rfl⟩

theorem erase_filterNames (test : String → Bool) :
    (t.filterNames test).erase k = t.filterNames fun name => test name && name != k := by
  refine ext ?_
  simp only [erase, filterNames, List.filter_filter]
  exact List.filter_congr fun e _ => Bool.and_comm ..

theorem put_eq_map {l : List (String × α)} (h : (l.map Prod.fst).Nodup)
    (hk : k ∈ l.map Prod.fst) : put k v l = l.map fun e => (e.1, if e.1 = k then v else e.2) := by
  induction l with
  | nil => simp at hk
  | cons e l ih =>
    obtain ⟨k', w⟩ := e
    simp only [List.map_cons, List.nodup_cons] at h
    by_cases he : k' = k
    · subst he
      have hrest : l.map (fun e => (e.1, if e.1 = k' then v else e.2)) = l.map id := by
        refine List.map_congr_left fun e he => ?_
        have : e.1 ≠ k' := fun heq => h.1 (List.mem_map.2 ⟨e, he, heq⟩)
        simp [this]
      simp [put, hrest]
    · have hmem : k ∈ l.map Prod.fst := by
        rcases List.mem_cons.1 hk with rfl | hk
        · exact absurd rfl he
        · exact hk
      simp [put, he, ih h.2 hmem]

theorem insert_mapNamed {f : String → α → α} (hk : t.has k = true) :
    (t.mapNamed f).insert k v = t.mapNamed fun name w => if name = k then v else f name w := by
  refine ext ?_
  have hkeys : (t.mapNamed f).entries.map Prod.fst = t.keys := by
    simp [mapNamed, keys, Function.comp_def]
  refine (put_eq_map (t.mapNamed f).nodup (hkeys ▸ has_iff.1 hk)).trans ?_
  simp [mapNamed, Function.comp_def]

end Table

/-! ## Graphs without some nodes -/

namespace Node

/-- Removing the node takes an item out of a list. -/
def takesItem (s : Store) (l i : Nat) : Node → Bool
  | slot h name (.element j) _ => j == i && s.listId? (s.slot h name.text) == some l
  | _ => false

/-- Removing the node takes a slot away. -/
def takesSlot (h : Holder) (name : String) : Node → Bool
  | slot h' name' .whole _ => h' == h && name'.text == name
  | _ => false

/-- Removing the node empties a cell: the one that a slot of a bean holds. -/
def emptiesCell (s : Store) (c : Nat) : Node → Bool
  | slot (.bean b) name .whole _ => s.slot (.bean b) name.text == .cell c
  | _ => false

end Node

/-- The value is a cell. -/
def Value.isCell : Value → Bool
  | cell _ => true
  | _ => false

/-- The items whose places pass a test. -/
def itemsAt (test : Nat → Bool) (items : List Value) : List Value :=
  (items.zipIdx.filter fun e => test e.2).map Prod.fst

/-- The graph without some of its nodes: without the items of lists and the slots of maps, with null
for the slots of beans or in the cells that they hold, and with everything else as it is. -/
def Store.without (s : Store) (gone : List Node) : Store :=
  { s with
    lists := s.lists.mapPlaces fun l => itemsAt fun i => !gone.any (·.takesItem s l i)
    maps := s.maps.mapPlaces fun id =>
      Table.filterNames fun name => !gone.any (·.takesSlot (.map id) name)
    beans := s.beans.mapPlaces fun id bean =>
      { bean with
        properties := bean.properties.mapNamed fun name v =>
          if gone.any (·.takesSlot (.bean id) name) && !v.isCell then .null else v }
    cells := s.cells.mapPlaces fun c v => if gone.any (·.emptiesCell s c) then .null else v }

theorem Store.without_congr {s : Store} {gone gone' : List Node}
    (h : ∀ node, node ∈ gone ↔ node ∈ gone') : s.without gone = s.without gone' := by
  have hany (test : Node → Bool) : gone.any test = gone'.any test := by
    rw [Bool.eq_iff_iff, List.any_eq_true, List.any_eq_true]
    exact exists_congr fun node => and_congr_left fun _ => h node
  simp only [Store.without, hany]

theorem Store.SameGraph.without {s t : Store} (ht : s.SameGraph t) (gone : List Node) :
    (s.without gone).SameGraph (t.without gone) := by
  have hslot (h : Holder) (name : String) : t.slot h name = s.slot h name := by
    rw [slot, slot, ht.slots]
  have hitem (l i : Nat) : Node.takesItem t l i = Node.takesItem s l i := by
    funext node
    simp only [Node.takesItem, hslot, listId?, unwrap, unwrapUpTo_congr ht.cells]
  have hcell (c : Nat) : Node.emptiesCell t c = Node.emptiesCell s c := by
    funext node
    simp only [Node.emptiesCell, hslot]
  obtain ⟨now, roots, rfl⟩ := ht
  exact ⟨now, roots, by simp only [Store.without, hitem, hcell]⟩

@[simp] theorem Store.without_nil (s : Store) : s.without [] = s := by
  rw [Store.without, Pool.mapPlaces_eq_self, Pool.mapPlaces_eq_self, Pool.mapPlaces_eq_self,
    Pool.mapPlaces_eq_self]
  · intro c v
    rfl
  · intro id bean
    have hproperties : bean.properties.mapNamed (fun _ v => v) = bean.properties :=
      Table.ext (by simp [Table.mapNamed])
    simp [hproperties]
  · exact fun id t => Table.ext (by simp [Table.filterNames])
  · intro l items
    simp [itemsAt]

/-! ## Lists without some items -/

section Items

variable {test test' : Nat → Bool} {items : List Value} {i : Nat}

/-- Taking out the first item that may go. -/
theorem eraseIdx_itemsAt (h : ∀ j ≤ i, test j = true)
    (h' : ∀ j, test' j = (test j && j != i)) :
    (itemsAt test items).eraseIdx i = itemsAt test' items := by
  have main (k d : Nat) (hk : k + d = i) :
      (((items.zipIdx k).filter fun e => test e.2).map Prod.fst).eraseIdx d =
        ((items.zipIdx k).filter fun e => test' e.2).map Prod.fst := by
    induction items generalizing k d with
    | nil => simp
    | cons v items ih =>
      have htest : test k = true := h k (by omega)
      cases d with
      | zero =>
        have hk' : test' k = false := by simp [h', show k = i by omega]
        have hrest : ∀ e ∈ items.zipIdx (k + 1), test e.2 = test' e.2 := fun e he => by
          have := List.le_snd_of_mem_zipIdx he
          simp [h', show e.2 ≠ i by omega]
        simp [List.zipIdx_cons, htest, hk', List.filter_congr hrest]
      | succ d =>
        have hk' : test' k = true := by simp [h', htest, show k ≠ i by omega]
        simp [List.zipIdx_cons, htest, hk', ih (k + 1) d (by omega)]
  exact main 0 i (by omega)

/-- The items before the first that may go stay where they are. -/
theorem getElem?_itemsAt (h : ∀ j ≤ i, test j = true) : (itemsAt test items)[i]? = items[i]? := by
  have main (k d : Nat) (hk : k + d = i) :
      (((items.zipIdx k).filter fun e => test e.2).map Prod.fst)[d]? = items[d]? := by
    induction items generalizing k d with
    | nil => simp
    | cons v items ih =>
      have htest : test k = true := h k (by omega)
      cases d with
      | zero => simp [List.zipIdx_cons, htest]
      | succ d => simp [List.zipIdx_cons, htest, ih (k + 1) d (by omega)]
  exact main 0 i (by omega)

end Items

/-! ## What is left -/

namespace Store

variable {s : Store} {gone : List Node} {h : Holder} {name : String} {v : Value}

theorem lists_without (l : Nat) : (s.without gone).lists.get l =
    itemsAt (fun i => !gone.any (·.takesItem s l i)) (s.lists.get l) :=
  Pool.get_mapPlaces rfl

theorem cells_without (c : Nat) : (s.without gone).cells.get c =
    if gone.any (·.emptiesCell s c) then .null else s.cells.get c :=
  Pool.get_mapPlaces (by split <;> rfl)

theorem maps_without (id : Nat) : (s.without gone).maps.get id =
    (s.maps.get id).filterNames fun name => !gone.any (·.takesSlot (.map id) name) :=
  Pool.get_mapPlaces (Table.ext rfl)

theorem beans_without (id : Nat) : (s.without gone).beans.get id =
    { s.beans.get id with
      properties := (s.beans.get id).properties.mapNamed fun name v =>
        if gone.any (·.takesSlot (.bean id) name) && !v.isCell then .null else v } :=
  Pool.get_mapPlaces rfl

/-- A slot that is not taken is left as it is. -/
theorem get?_without (hv : (s.slots h).get? name = some v)
    (hkeep : ∀ g ∈ gone, g.takesSlot h name = false) :
    ((s.without gone).slots h).get? name = some v := by
  have hany : gone.any (·.takesSlot h name) = false := by simpa using hkeep
  cases h with
  | map id =>
    rw [slots, maps_without, Table.get?_filterNames (by simp [hany])]
    exact hv
  | bean id =>
    have hv' : (s.beans.get id).properties.get? name = some v := hv
    simp only [slots, beans_without, Table.get?_mapNamed, hv', Option.map_some, hany,
      Bool.false_and, Bool.false_eq_true, if_false]

end Store

/-- Nothing that is gone touches a node: not its slot, and no item up to its own. -/
structure Spares (s : Store) (gone : List Node) (h : Holder) (name : String) (index : Index) :
    Prop where
  slot : ∀ g ∈ gone, g.takesSlot h name = false
  item : ∀ g ∈ gone, ∀ l, s.unwrap (s.slot h name) = .list l → ∀ i : Nat, index = .element i →
    ∀ j ≤ i, g.takesItem s l j = false

/-- The node is a slot at an address. -/
def IsSlotAt (s : Store) (root : Holder) (node : Node) : Prop :=
  ∃ ns h name index, node = .slot h (.bare name) index false ∧ SlotAt s root ns h name index

section Left

variable {s : Store} {root h : Holder} {gone : List Node} {ns : List Node} {name : String}
  {index : Index} {v : Value}

/-- The cells that are seen from a slot that is left hold what they held. -/
theorem SlotAt.cells_without (ht : s.IsTree root.value) (hgone : ∀ g ∈ gone, IsSlotAt s root g)
    (ha : SlotAt s root ns h name index) (hs : ∀ g ∈ gone, g.takesSlot h name = false)
    {moves : List Hop} {c : Nat} (hm : Hop.NoKey moves)
    (hc : s.follow (s.slot h name) moves = some (.cell c)) :
    (s.without gone).cells.get c = s.cells.get c := by
  rw [Store.cells_without, if_neg]
  rw [List.any_eq_true]
  rintro ⟨g, hg, hempties⟩
  obtain ⟨ns', h', name', index', rfl, hb⟩ := hgone g hg
  cases h' with
  | map => simp [Node.emptiesCell] at hempties
  | bean b =>
    cases index' with
    | element => simp [Node.emptiesCell] at hempties
    | whole =>
      have hcell : s.slot (.bean b) name' = .cell c := by
        simpa [Node.emptiesCell, QName.text, QName.bare] using hempties
      obtain ⟨rfl, rfl, -⟩ := hb.eq_of_cell ht ha hcell hm hc
      simpa [Node.takesSlot, QName.text, QName.bare] using hs _ hg

/-- A slot that is left shows what it showed. -/
theorem SlotAt.unwrap_without (ht : s.IsTree root.value) (hgone : ∀ g ∈ gone, IsSlotAt s root g)
    (ha : SlotAt s root ns h name index) (hs : ∀ g ∈ gone, g.takesSlot h name = false) :
    (s.without gone).unwrap (s.slot h name) = s.unwrap (s.slot h name) :=
  Store.unwrapUpTo_eq_of_cells fun k _ hc =>
    ha.cells_without ht hgone hs (Hop.noKey_replicate k) hc

/-- The items up to a node that is left stay where they are. -/
theorem Spares.getElem?_without {l i j : Nat} (hs : Spares s gone h name (.element i))
    (hl : s.unwrap (s.slot h name) = .list l) (hj : j ≤ i) :
    ((s.without gone).lists.get l)[j]? = (s.lists.get l)[j]? := by
  rw [Store.lists_without]
  refine getElem?_itemsAt fun k hk => ?_
  simpa using fun g hg => hs.item g hg l hl i rfl k (by omega)

/-- A node that is left is a node of its slot. -/
theorem SlotAt.mem_slotNodes_without (ht : s.IsTree root.value)
    (hgone : ∀ g ∈ gone, IsSlotAt s root g) (ha : SlotAt s root ns h name index)
    (hs : Spares s gone h name index) (hv : (s.slots h).get? name = some v) :
    .slot h (.bare name) index false ∈ (s.without gone).slotNodes h name v := by
  obtain ⟨v', hv', hnode⟩ := ha.node
  obtain rfl := Option.some.inj (hv.symm.trans hv')
  have hunwrap := ha.unwrap_without ht hgone hs.slot
  rw [Store.slot_eq hv] at hunwrap
  rw [Store.mem_slotNodes_iff] at hnode ⊢
  split at hnode
  · next hnone =>
    have : (s.without gone).items? v = none := by
      rw [Store.items?, hunwrap]
      rw [Store.items?] at hnone
      split at hnone <;> simp_all
    rwa [this]
  · next items hitems =>
    obtain ⟨i, hi, rfl⟩ := hnode
    obtain ⟨l, hl, rfl⟩ := Store.items?_eq_some_iff.1 hitems
    rw [Store.items?_eq_some_iff.2 ⟨l, hunwrap.trans hl, rfl⟩]
    refine ⟨i, ?_, rfl⟩
    have hget := hs.getElem?_without (by rwa [Store.slot_eq hv]) (le_refl i)
    rw [List.getElem?_eq_getElem hi] at hget
    exact (List.getElem?_eq_some_iff.1 hget).1

/-- A node that is left shows what it showed. -/
theorem SlotAt.end?_without (ht : s.IsTree root.value) (hgone : ∀ g ∈ gone, IsSlotAt s root g)
    (ha : SlotAt s root ns h name index) (hs : Spares s gone h name index) :
    (Node.slot h (.bare name) index false).end? (s.without gone) =
      (Node.slot h (.bare name) index false).end? s := by
  obtain ⟨v, hv, hnode⟩ := ha.node
  have hv' := Store.get?_without hv hs.slot
  have hnode' := ha.mem_slotNodes_without ht hgone hs hv
  have hunwrap := ha.unwrap_without ht hgone hs.slot
  have hcells (moves : List Hop) (c : Nat) (hm : Hop.NoKey moves)
      (hc : s.follow v moves = some (.cell c)) :
      (s.without gone).cells.get c = s.cells.get c :=
    ha.cells_without ht hgone hs.slot hm (by rwa [Store.slot_eq hv])
  rw [Store.slot_eq hv] at hunwrap
  rw [Node.end?_slot, Node.end?_slot]
  rw [Store.mem_slotNodes_iff] at hnode hnode'
  split at hnode
  · subst hnode
    rw [Node.immediate_slot_whole hv, Node.immediate_slot_whole hv']
    exact Store.endUpTo?_eq_of_cells fun k _ hc => hcells _ _ (Hop.noKey_replicate k) hc
  · next items hitems =>
    obtain ⟨i, hi, rfl⟩ := hnode
    obtain ⟨l, hl, rfl⟩ := Store.items?_eq_some_iff.1 hitems
    have hitems' := Store.items?_eq_some_iff.2 ⟨l, hunwrap.trans hl, rfl⟩
    rw [Node.immediate_slot_element hv hitems, Node.immediate_slot_element hv' hitems',
      hs.getElem?_without (by rwa [Store.slot_eq hv]) (le_refl i), List.getElem?_eq_getElem hi,
      Option.getD_some]
    refine Store.endUpTo?_eq_of_cells fun k c hc => ?_
    obtain ⟨k', hk'⟩ := Store.follow_unwrapUpTo s Store.maxIndirections v
    rw [show s.unwrapUpTo Store.maxIndirections v = .list l from hl] at hk'
    refine hcells (List.replicate k' .inside ++ ([.item i] ++ List.replicate k .inside)) c
      ((Hop.noKey_replicate k').append ((Hop.noKey_item i).append (Hop.noKey_replicate k))) ?_
    exact Store.follow_trans hk'
      (Store.follow_trans (Store.follow_item (List.getElem?_eq_getElem hi)) hc)

/-- **What no removal touches keeps its address.** -/
theorem Addressed.without {gs : List Segment} (ht : s.IsTree root.value)
    (hgone : ∀ g ∈ gone, IsSlotAt s root g) (ha : Addressed s root ns gs)
    (hs : ∀ h name index, .slot h (.bare name) index false ∈ ns → Spares s gone h name index) :
    Addressed (s.without gone) root ns gs ∧
      ∀ n ∈ ns.head?, n.end? (s.without gone) = n.end? s := by
  induction ha with
  | root => exact ⟨.root, by rintro _ ⟨⟩; cases root <;> rfl⟩
  | @slot n ns gs h name v index hn hend hentry hnode ih =>
    obtain ⟨hn', hend'⟩ := ih fun h name index hm => hs h name index (List.mem_cons_of_mem _ hm)
    have hspared := hs h name index (List.mem_cons_self ..)
    obtain ⟨_, _, _, heq, hat⟩ := (Addressed.slot hn hend hentry hnode).slotAt ht
    simp only [Node.slot.injEq, QName.bare, QName.mk.injEq, true_and, and_true] at heq
    obtain ⟨rfl, rfl, rfl⟩ := heq
    refine ⟨.slot hn' ((hend' n rfl).trans hend) (Store.get?_without hentry hspared.slot)
      (hat.mem_slotNodes_without ht hgone hspared hentry), ?_⟩
    rintro _ ⟨⟩
    exact hat.end?_without ht hgone hspared
  | item hn hend => exact absurd hend (hn.end?_ne_list ht.flat _)

end Left

/-! ## Removing one more node -/

namespace Pointer

variable {p : Pointer} {t u : Store} {h : Holder} {name : String}

/-- Removing a whole slot. -/
theorem remove_whole (hp : p.node = .slot h (.bare name) .whole false)
    (hu : t.eraseSlot h name = .ok u) : p.remove.result t = (.ok (), u) := by
  have hp' : p.visit.node = .slot h (.bare name) .whole false := hp
  rw [remove]
  unfold removeAt
  simp only [hp', removeSlot, place, node, Node.index, Action.eraseSlot, Action.result_bind,
    Action.result_pure, Action.result_read, QName.text, QName.bare, hu, Action.result_set]

/-- Removing one item of the list in a slot. -/
theorem remove_element {i l : Nat} (hp : p.node = .slot h (.bare name) (.element i) false)
    (hl : t.unwrap (t.slot h name) = .list l) :
    p.remove.result t = (.ok (), t.eraseListItem l i) := by
  have hp' : p.visit.node = .slot h (.bare name) (.element i) false := hp
  have hplace : (Index.element i).place? = some i := by simp [Index.place?]
  rw [remove]
  unfold removeAt
  simp only [hp', removeSlot, place, node, Node.index, hplace, Action.result_bind,
    Action.result_pure, Action.result_get, QName.text, QName.bare, Store.listId?, hl,
    Action.result_change]

end Pointer

namespace Store

variable {s t : Store} {gone : List Node} {node : Node}

theorem SameGraph.of_without (ht : (s.without gone).SameGraph t) :
    t.lists = (s.without gone).lists ∧ t.maps = (s.without gone).maps ∧
      t.beans = (s.without gone).beans ∧ t.cells = (s.without gone).cells ∧
      t.foreigns = s.foreigns ∧ t.scopes = s.scopes := by
  obtain ⟨_, _, rfl⟩ := ht
  exact ⟨rfl, rfl, rfl, rfl, rfl, rfl⟩

/-- A node that takes no item changes no list. -/
theorem lists_without_cons (hn : ∀ l i, node.takesItem s l i = false) :
    (s.without (node :: gone)).lists = (s.without gone).lists := by
  simp [without, hn]

/-- A node that takes no slot of a map changes no map. -/
theorem maps_without_cons (hn : ∀ id name, node.takesSlot (.map id) name = false) :
    (s.without (node :: gone)).maps = (s.without gone).maps := by
  simp [without, hn]

/-- A node that takes no slot of a bean, or only one that holds a cell, changes no bean. -/
theorem beans_without_cons (hn : ∀ id name, node.takesSlot (.bean id) name = true →
    ∃ c, s.slot (.bean id) name = .cell c) :
    (s.without (node :: gone)).beans = (s.without gone).beans := by
  refine Pool.mapPlaces_congr fun id => ?_
  have hproperties : (s.beans.get id).properties.mapNamed (fun name v =>
      if (node :: gone).any (·.takesSlot (.bean id) name) && !v.isCell then .null else v) =
        (s.beans.get id).properties.mapNamed fun name v =>
          if gone.any (·.takesSlot (.bean id) name) && !v.isCell then .null else v := by
    refine Table.ext (List.map_congr_left fun e he => ?_)
    cases htakes : node.takesSlot (.bean id) e.1 with
    | false => simp [htakes]
    | true =>
      obtain ⟨c, hc⟩ := hn id e.1 htakes
      have hv : (s.slots (.bean id)).get? e.1 = some e.2 := Table.get?_eq_some_iff.2 he
      rw [slot_eq hv] at hc
      simp [hc, Value.isCell]
  rw [hproperties]

/-- A node that empties no cell changes no cell. -/
theorem cells_without_cons (hn : ∀ c, node.emptiesCell s c = false) :
    (s.without (node :: gone)).cells = (s.without gone).cells := by
  simp [without, hn]

theorem sameGraph_of_eq {u : Store} (hl : t.lists = u.lists) (hm : t.maps = u.maps)
    (hb : t.beans = u.beans) (hc : t.cells = u.cells) (hf : t.foreigns = u.foreigns)
    (hs : t.scopes = u.scopes) : u.SameGraph t := by
  refine ⟨t.now, t.roots, ?_⟩
  cases t
  simp_all

end Store

section Step

variable {s t : Store} {root h : Holder} {gone : List Node} {ns : List Node} {name : String}
  {index : Index} {p : Pointer}

theorem Node.takesItem_element {i j l l' : Nat} (hl : s.listId? (s.slot h name) = some l) :
    (Node.slot h (.bare name) (.element i) false).takesItem s l' j =
      decide (i = j ∧ l = l') := by
  rw [Bool.eq_iff_iff]
  simp [takesItem, QName.text, QName.bare, hl]

theorem Node.takesSlot_whole {h' : Holder} {name' : String} :
    (Node.slot h (.bare name) .whole false).takesSlot h' name' =
      decide (h = h' ∧ name = name') := by
  rw [Bool.eq_iff_iff]
  simp [takesSlot, QName.text, QName.bare]

/-- A slot of a map goes. -/
theorem eraseSlot_map {id : Nat} (ht : (s.without gone).SameGraph t) :
    (s.without (.slot (.map id) (.bare name) .whole false :: gone)).SameGraph
      (t.setMap id ((t.maps.get id).erase name)) := by
  obtain ⟨hl, hm, hb, hc, hf, hs⟩ := ht.of_without
  refine Store.sameGraph_of_eq ?_ ?_ ?_ ?_ hf hs
  · rw [Store.lists_without_cons fun _ _ => rfl]
    exact hl
  · show t.maps.set id _ = _
    rw [hm, Store.maps_without, Table.erase_filterNames]
    refine Pool.set_mapPlaces (fun j hj => ?_) ?_
    · simp [Node.takesSlot_whole, Ne.symm hj]
    · congr 1
      funext key
      by_cases hkey : key = name
      · simp [Node.takesSlot_whole, hkey]
      · simp [Node.takesSlot_whole, hkey, Ne.symm hkey]
  · rw [Store.beans_without_cons fun _ _ h => by simp [Node.takesSlot_whole] at h]
    exact hb
  · rw [Store.cells_without_cons fun _ => rfl]
    exact hc

/-- A slot of a bean is emptied. -/
theorem setBean_null {id : Nat} (ht : (s.without gone).SameGraph t)
    (hhas : (s.slots (.bean id)).has name = true) (hcell : ∀ c, s.slot (.bean id) name ≠ .cell c) :
    (s.without (.slot (.bean id) (.bare name) .whole false :: gone)).SameGraph
      (t.setBean id { t.beans.get id with
        properties := (t.beans.get id).properties.insert name .null }) := by
  obtain ⟨hl, hm, hb, hc, hf, hs⟩ := ht.of_without
  refine Store.sameGraph_of_eq ?_ ?_ ?_ ?_ hf hs
  · rw [Store.lists_without_cons fun _ _ => rfl]
    exact hl
  · rw [Store.maps_without_cons fun _ _ => by simp [Node.takesSlot_whole]]
    exact hm
  · show t.beans.set id _ = _
    rw [hb, Store.beans_without]
    refine Pool.set_mapPlaces (fun j hj => ?_) ?_
    · simp [Node.takesSlot_whole, Ne.symm hj]
    · have hproperties := Table.insert_mapNamed (t := (s.beans.get id).properties) (v := .null)
        (f := fun name v =>
          if gone.any (·.takesSlot (.bean id) name) && !v.isCell then .null else v) hhas
      rw [hproperties]
      refine congrArg (fun properties => { s.beans.get id with properties }) ?_
      refine Table.ext (List.map_congr_left fun e he => ?_)
      by_cases hname : e.1 = name
      · have hv : (s.slots (.bean id)).get? name = some e.2 :=
          hname ▸ Table.get?_eq_some_iff.2 he
        have hv' : e.2.isCell = false := by
          rw [Store.slot_eq hv] at hcell
          cases he2 : e.2 <;> simp_all [Value.isCell]
        simp [Node.takesSlot_whole, hname, hv']
      · simp [Node.takesSlot_whole, hname, Ne.symm hname]
  · rw [Store.cells_without_cons fun c => by simp [Node.emptiesCell, QName.text, QName.bare, hcell]]
    exact hc

/-- A cell that a slot of a bean holds is emptied. -/
theorem setCell_null {id c : Nat} (ht : (s.without gone).SameGraph t)
    (hcell : s.slot (.bean id) name = .cell c) :
    (s.without (.slot (.bean id) (.bare name) .whole false :: gone)).SameGraph
      (t.setCell c .null) := by
  obtain ⟨hl, hm, hb, hc, hf, hs⟩ := ht.of_without
  refine Store.sameGraph_of_eq ?_ ?_ ?_ ?_ hf hs
  · rw [Store.lists_without_cons fun _ _ => rfl]
    exact hl
  · rw [Store.maps_without_cons fun _ _ => by simp [Node.takesSlot_whole]]
    exact hm
  · rw [Store.beans_without_cons fun id' name' h => by
      simp only [Node.takesSlot_whole, decide_eq_true_eq, Holder.bean.injEq] at h
      exact ⟨c, h.1 ▸ h.2 ▸ hcell⟩]
    exact hb
  · show t.cells.set c _ = _
    rw [hc]
    refine Pool.set_mapPlaces (fun j hj => ?_) ?_
    · simp [Node.emptiesCell, QName.text, QName.bare, hcell, Ne.symm hj]
    · simp [Node.emptiesCell, QName.text, QName.bare, hcell]

/-- An item of a list goes. -/
theorem eraseListItem_without {l i : Nat} (ht : (s.without gone).SameGraph t)
    (hl : s.unwrap (s.slot h name) = .list l)
    (hspared : ∀ g ∈ gone, ∀ j ≤ i, g.takesItem s l j = false) :
    (s.without (.slot h (.bare name) (.element i) false :: gone)).SameGraph
      (t.eraseListItem l i) := by
  have hlist : s.listId? (s.slot h name) = some l := by rw [Store.listId?, hl]
  obtain ⟨hl, hm, hb, hc, hf, hs⟩ := ht.of_without
  refine Store.sameGraph_of_eq ?_ ?_ ?_ ?_ hf hs
  · show t.lists.set l _ = _
    rw [hl, Store.lists_without]
    refine Pool.set_mapPlaces (fun j hj => ?_) ?_
    · simp [Node.takesItem_element hlist, Ne.symm hj]
    · refine (eraseIdx_itemsAt (fun j hj => ?_) fun j => ?_).symm
      · simpa using fun g hg => hspared g hg j hj
      · by_cases hji : j = i
        · simp [Node.takesItem_element hlist, hji]
        · simp [Node.takesItem_element hlist, hji, Ne.symm hji]
  · rw [Store.maps_without_cons fun _ _ => rfl]
    exact hm
  · rw [Store.beans_without_cons fun _ _ h => by simp [Node.takesSlot] at h]
    exact hb
  · rw [Store.cells_without_cons fun _ => by cases h <;> rfl]
    exact hc

/-- A slot of a record can be emptied. -/
theorem eraseSlot_bean {id : Nat} {v : Value} (hrecord : (s.beans.get id).readOnly = [] ∧
    (s.beans.get id).typed = []) (hv : (s.slots (.bean id)).get? name = some v)
    (hkeep : ∀ g ∈ gone, g.takesSlot (.bean id) name = false)
    (ht : (s.without gone).SameGraph t) : ∃ u, t.eraseSlot (.bean id) name = .ok u ∧
      (s.without (.slot (.bean id) (.bare name) .whole false :: gone)).SameGraph u := by
  have hleft := Store.get?_without hv hkeep
  rw [← ht.slots] at hleft
  rw [Store.eraseSlot]
  unfold Store.putSlot
  rw [Store.slot_eq hleft]
  by_cases hcell : ∃ c, v = .cell c
  · obtain ⟨c, rfl⟩ := hcell
    exact ⟨_, rfl, setCell_null ht (Store.slot_eq hv)⟩
  · have hbean : t.beans.get id = (s.without gone).beans.get id := by rw [ht.of_without.2.2.1]
    rw [Store.beans_without] at hbean
    have hhas : (t.beans.get id).properties.has name = true :=
      Table.has_iff_get?.2 ⟨v, hleft⟩
    have hreadOnly : (t.beans.get id).readOnly = [] := by rw [hbean]; exact hrecord.1
    have htyped : (t.beans.get id).typed = [] := by rw [hbean]; exact hrecord.2
    refine ⟨t.setBean id { t.beans.get id with
      properties := (t.beans.get id).properties.insert name .null }, ?_, setBean_null ht
        (Table.has_iff_get?.2 ⟨v, hv⟩) fun c hc => hcell ⟨c, (Store.slot_eq hv).symm.trans hc⟩⟩
    have hassign (kind : String) : (t.beans.get id).assign name kind .null = .ok
        { t.beans.get id with properties := (t.beans.get id).properties.insert name .null } := by
      simp [Bean.assign, hreadOnly, htyped, hhas]
    cases v <;> first | exact absurd ⟨_, rfl⟩ hcell | simp only [hassign]

/-- **Removing a node that is left takes one more node out of the graph.** -/
theorem Pointer.remove_without (htree : s.IsTree root.value) (hgone : ∀ g ∈ gone, IsSlotAt s root g)
    (ha : SlotAt s root ns h name index) (hs : Spares s gone h name index)
    (hp : p.node = .slot h (.bare name) index false) (ht : (s.without gone).SameGraph t) :
    ∃ t', p.remove.result t = (.ok (), t') ∧ (s.without (p.node :: gone)).SameGraph t' := by
  obtain ⟨⟨route, hroute⟩, v, hv, hnode⟩ := id ha
  have hunwrap := ha.unwrap_without htree hgone hs.slot
  have hleft := Store.get?_without hv hs.slot
  rw [← ht.slots] at hleft
  rw [hp]
  rw [Store.mem_slotNodes_iff] at hnode
  split at hnode
  · subst hnode
    cases h with
    | map id => exact ⟨_, Pointer.remove_whole hp rfl, eraseSlot_map ht⟩
    | bean id =>
      obtain ⟨u, hu, hgraph⟩ :=
        eraseSlot_bean (htree.records id ⟨route, hroute.follow⟩) hv hs.slot ht
      exact ⟨u, Pointer.remove_whole hp hu, hgraph⟩
  · next items hitems =>
    obtain ⟨i, hi, rfl⟩ := hnode
    obtain ⟨l, hl, rfl⟩ := Store.items?_eq_some_iff.1 hitems
    rw [Store.slot_eq hv] at hunwrap
    have hlist : s.unwrap (s.slot h name) = .list l := by rw [Store.slot_eq hv, hl]
    refine ⟨_, Pointer.remove_element hp ?_,
      eraseListItem_without ht hlist fun g hg j hj => hs.item g hg l hlist i rfl j hj⟩
    rw [Store.slot_eq hleft, Store.unwrap, Store.unwrapUpTo_congr ht.cells]
    exact hunwrap.trans hl

end Step

end PathQuery
