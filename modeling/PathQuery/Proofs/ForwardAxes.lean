import PathQuery.Proofs.Descents

/-!
# What lies ahead of a node

The siblings after a node and all that follows it, as chains: those that part from the chain of the
node and go on after it.

* names: `Pointer.children_of_holder`, `Pointer.Ahead`, `Pointer.level`.
* **`followingSiblings_iff`**: siblings of a slot. **`following_iff`**: all that follows a node of a
  flat graph, in document order.
-/

namespace PathQuery

open Relation (ReflTransGen TransGen)

/-! ## Children of objects -/

namespace Pointer

variable {s : Store} {p q : Pointer} {h : Holder}

/-- The children of an object are its slots. -/
theorem children_of_holder (hp : p.node.IsPlain) (hend : p.node.end? s = some h.value) :
    p.children s .standard = .ok ((s.childNodes h).map (p.child s.now)) := by
  have hwith (inner : Pointer → Except PathError (List Pointer)) :
      p.childrenWith s .standard inner = .ok ((s.childNodes h).map (p.child s.now)) := by
    rw [childrenWith_eq hp, (value_eq_ok_iff hp).2 hend]
    cases h <;> rfl
  rw [children]
  cases s.lists.size <;> exact hwith _

end Pointer

namespace Store

variable {s : Store} {n : Node} {ns ms : List Node} {h : Holder}

theorem chainsUpTo_of_holder (hend : n.end? s = some h.value) (k : Nat) :
    s.chainsUpTo k (n :: ns) = some ((s.childNodes h).map (· :: n :: ns)) := by
  have hwith (inner : List Node → Option (List (List Node))) :
      chainView.belowWith s inner (n :: ns) = some ((s.childNodes h).map (· :: n :: ns)) := by
    have hshown : chainView.shown? s (n :: ns) = some h.value := hend
    rw [View.belowWith, hshown]
    cases h <;> rfl
  cases k <;> exact hwith _

/-- The child chains of an object's chain end in its slots. -/
theorem hasChild_iff_of_holder (hend : n.end? s = some h.value) :
    s.HasChild (n :: ns) ms ↔ ∃ node ∈ s.childNodes h, ms = node :: n :: ns := by
  simp only [HasChild, chainsUpTo_of_holder hend, Option.some.injEq, exists_eq_left', List.mem_map,
    eq_comm (a := ms)]

theorem not_hasChild_nil : ¬s.HasChild [] ms := by
  rintro ⟨css, hcss, -⟩
  cases hsize : s.lists.size <;> rw [hsize] at hcss <;> cases hcss

end Store

namespace Addressed

variable {s : Store} {root : Holder} {n : Node} {ns as : List Node} {gs : List Segment}

/-- A slot at an address is a child of the node above it. -/
theorem hasChild {h : Holder} {name : QName} {index : Index} {isAttribute : Bool}
    (ha : Addressed s root (.slot h name index isAttribute :: n :: ns) gs) :
    isAttribute = false ∧ n.end? s = some h.value ∧
      .slot h name index isAttribute ∈ s.childNodes h ∧
      s.HasChild (n :: ns) (.slot h name index isAttribute :: n :: ns) := by
  generalize hslot : Node.slot h name index isAttribute = a at ha ⊢
  cases ha with
  | slot hn hend hentry hnode =>
    have hmem := Store.mem_childNodes.2 ⟨_, _, Table.get?_eq_some_iff.1 hentry, hnode⟩
    cases hslot
    exact ⟨rfl, hend, hmem, (Store.hasChild_iff_of_holder hend).2 ⟨_, hmem, rfl⟩⟩
  | item => cases hslot

/-- In a flat graph a chain at an address is that of a child. -/
theorem hasChild_of_flat {m : Node} (hflat : s.FlatLists root.value)
    (ha : Addressed s root (m :: n :: ns) gs) : s.HasChild (n :: ns) (m :: n :: ns) := by
  cases ha with
  | slot hn hend hentry hnode => exact (Addressed.slot hn hend hentry hnode).hasChild.2.2.2
  | item hn hend => exact absurd hend (hn.end?_ne_list hflat _)

/-- In a flat graph a chain at an address goes down from child to child. -/
theorem reflTransGen (hflat : s.FlatLists root.value) (ha : Addressed s root (as ++ n :: ns) gs) :
    ReflTransGen s.HasChild (n :: ns) (as ++ n :: ns) := by
  induction as generalizing gs with
  | nil => exact .refl
  | cons a as ih =>
    obtain ⟨m, ms, hms⟩ : ∃ m ms, as ++ n :: ns = m :: ms :=
      List.exists_cons_of_ne_nil (by simp)
    rw [List.cons_append, hms] at ha
    obtain ⟨gs', ha'⟩ := ha.tail
    rw [List.cons_append]
    refine (ih (hms ▸ ha')).tail ?_
    rw [hms]
    exact ha.hasChild_of_flat hflat

theorem exists_of_hasChild {ms : List Node} (ha : Addressed s root ns gs) (h : s.HasChild ns ms) :
    ∃ gs', Addressed s root ms gs' := by
  obtain ⟨is, name, index, hchain⟩ := h.exists_childChain
  exact ⟨_, hchain.addressed ha⟩

theorem exists_of_reflTransGen {ms : List Node} (ha : Addressed s root ns gs)
    (h : ReflTransGen s.HasChild ns ms) : ∃ gs', Addressed s root ms gs' := by
  induction h with
  | refl => exact ⟨gs, ha⟩
  | tail _ h ih => exact ih.choose_spec.exists_of_hasChild h

theorem getLast? (ha : Addressed s root ns gs) : ns.getLast? = some (root.value.node none) := by
  induction ha with
  | root => rfl
  | slot _ _ _ _ ih => rw [List.getLast?_cons_cons, ih]
  | item _ _ _ ih => rw [List.getLast?_cons_cons, ih]

/-- Chains at addresses do not part above the root. -/
theorem not_partsBefore_root (ha : Addressed s root ns gs) :
    ¬s.PartsBefore [root.value.node none] ns := by
  rintro ⟨a, b, ks, hsuffix, hb, hlt⟩
  have hks : ks = [] := by
    have := hsuffix.length_le
    simpa using this
  subst hks
  obtain rfl : a = root.value.node none := by simpa using hsuffix.eq_of_length rfl
  obtain ⟨bs, rfl⟩ := hb
  obtain rfl : b = root.value.node none := by simpa using ha.getLast?
  exact Store.not_partsBefore_self [root.value.node none] (Store.partsBefore_cons hlt [])

end Addressed

/-! ## Siblings -/

namespace Pointer

variable {s : Store} {root : Holder} {p q parent : Pointer} {qs : List Pointer}

/-- The node is an object or one of its slots, and no item of a list. -/
def IsStop (p : Pointer) : Prop := ∀ l name index, p.node ≠ .items l name index

/-- The second chain is that of a sibling of the first, after it. -/
def Ahead (s : Store) (ns ms : List Node) : Prop :=
  ∃ n m ks, ns = n :: ks ∧ ms = m :: ks ∧ s.HasChild ks ms ∧ n.compareSiblings s m = .lt

theorem above_eq_nil_of_parent? (h : p.parent? = none) : p.above = [] := by
  cases habove : p.above with
  | nil => rfl
  | cons v vs => simp [parent?, habove] at h

theorem above_ne_nil_of_parent? (h : p.parent? = some parent) : p.above ≠ [] := by
  intro hnil
  simp [parent?, hnil] at h

/-- A slot at an address, with the object that it is a slot of. -/
theorem IsAddressed.exists_slot (hp : IsAddressed s root p) (hstop : p.IsStop)
    (hparent : p.parent? = some parent) :
    ∃ h name index, p.node = .slot h name index false ∧ parent.node.end? s = some h.value ∧
      p.node ∈ s.childNodes h := by
  obtain ⟨gs, ha⟩ := hp
  rw [nodes_parent? hparent, nodes_eq parent] at ha
  generalize hn : p.node = n at ha
  cases ha with
  | slot hn' hend hentry hnode =>
    obtain ⟨-, -, hmem, -⟩ := (Addressed.slot hn' hend hentry hnode).hasChild
    exact ⟨_, _, _, rfl, hend, hmem⟩
  | item => exact absurd hn (hstop _ _ _)

/-- A child that looks like a slot of its object is that slot. -/
theorem eq_slot_of_alike {h : Holder} {a : Node} {name : QName} {index : Index}
    (ha : a ∈ s.childNodes h) (halike : a.alike (.slot h name index false) = true) :
    a = .slot h name index false := by
  obtain ⟨key, v, -, ha⟩ := Store.mem_childNodes.1 ha
  obtain ⟨i, rfl⟩ := Store.mem_slotNodes ha
  obtain ⟨-, hindex, -, hname⟩ := Node.eq_of_alike halike
  simp only [Node.index] at hindex
  simp only [Node.name?, Option.some.injEq] at hname
  rw [hindex, hname]

/-- Of two children of an object the one that comes first does not look like the other. -/
theorem unlike_of_compareSiblings {h : Holder} {a b : Node} (ha : a ∈ s.childNodes h)
    (hb : b ∈ s.childNodes h) (hlt : a.compareSiblings s b = .lt) : a.alike b = false := by
  rw [Bool.eq_false_iff]
  intro halike
  obtain ⟨name, v, -, hb⟩ := Store.mem_childNodes.1 hb
  obtain ⟨index, rfl⟩ := Store.mem_slotNodes hb
  exact Node.ne_of_compareSiblings hlt (eq_slot_of_alike ha halike)

/-- A child of the parent stands at the position of a pointer if their nodes look alike. -/
theorem samePosition_child (hparent : p.parent? = some parent) (node : Node) :
    (parent.child s.now node).samePosition s p = node.alike p.node := by
  obtain ⟨v, above, habove⟩ := List.exists_cons_of_ne_nil (above_ne_nil_of_parent? hparent)
  rw [samePosition, habove, node_child]
  simp [child, chain]

/-- The siblings of a child are the children that stand before it and behind it. -/
theorem siblings_of_mem {h : Holder} (hparent : p.parent? = some parent)
    (hplain : parent.node.IsPlain) (hend : parent.node.end? s = some h.value)
    (hmem : p.node ∈ s.childNodes h) :
    ∃ before after, s.childNodes h = before ++ p.node :: after ∧
      p.siblings s .standard =
        .ok (before.map (parent.child s.now), after.map (parent.child s.now)) := by
  obtain ⟨before, after, hchildren⟩ := List.append_of_mem hmem
  refine ⟨before, after, hchildren, ?_⟩
  have hattribute : p.node.isAttribute = false := by
    obtain ⟨name, v, -, hnode⟩ := Store.mem_childNodes.1 hmem
    obtain ⟨index, hnode⟩ := Store.mem_slotNodes hnode
    rw [hnode, Node.isAttribute]
  have hpairs := Store.pairwise_childNodes (s := s) h
  rw [hchildren] at hpairs
  have hbefore : ∀ node ∈ before, node.alike p.node = false := fun node hnode =>
    unlike_of_compareSiblings (hchildren ▸ List.mem_append_left _ hnode) hmem
      ((List.pairwise_append.1 hpairs).2.2 node hnode _ (List.mem_cons_self ..))
  have hspan : (((s.childNodes h).map (parent.child s.now)).span fun q => !q.samePosition s p) =
      (before.map (parent.child s.now), (p.node :: after).map (parent.child s.now)) := by
    rw [List.span_eq_takeWhile_dropWhile, hchildren, List.map_append]
    have hall : ∀ q ∈ before.map (parent.child s.now), (!q.samePosition s p) = true := by
      intro q hq
      obtain ⟨node, hnode, rfl⟩ := List.mem_map.1 hq
      rw [samePosition_child hparent, hbefore node hnode, Bool.not_false]
    rw [List.takeWhile_append_of_pos hall, List.dropWhile_append_of_pos hall]
    simp [samePosition_child hparent, Node.alike_refl]
  rw [siblings]
  simp only [hparent, hattribute, Bool.false_eq_true, if_false, children_of_holder hplain hend,
    Except.ok_bind, hspan]
  rfl

/-- The siblings of a slot are the slots that stand before it and behind it in its object. -/
theorem exists_siblings_eq (hp : IsAddressed s root p) (hstop : p.IsStop)
    (hparent : p.parent? = some parent) :
    ∃ h before after, parent.node.end? s = some h.value ∧
      s.childNodes h = before ++ p.node :: after ∧
      p.siblings s .standard =
        .ok (before.map (parent.child s.now), after.map (parent.child s.now)) := by
  obtain ⟨h, name, index, -, hend, hmem⟩ := hp.exists_slot hstop hparent
  have hplain := ((kept_isAddressed s root).parent hp hparent).isPlain
  obtain ⟨before, after, hchildren, hsiblings⟩ := siblings_of_mem hparent hplain hend hmem
  exact ⟨h, before, after, hend, hchildren, hsiblings⟩

theorem exists_followingSiblings (hp : IsAddressed s root p) (hstop : p.IsStop)
    (hparent : p.parent? = some parent) :
    ∃ h before after, parent.node.end? s = some h.value ∧
      s.childNodes h = before ++ p.node :: after ∧
      p.followingSiblings s .standard = .ok (after.map (parent.child s.now)) := by
  obtain ⟨h, before, after, hend, hchildren, hsiblings⟩ := exists_siblings_eq hp hstop hparent
  exact ⟨h, before, after, hend, hchildren, by rw [followingSiblings, hsiblings]; rfl⟩

theorem followingSiblings_root (h : p.parent? = none) : p.followingSiblings s .standard = .ok [] := by
  rw [followingSiblings, siblings, h]
  rfl

/-- **The siblings after a node.** -/
theorem followingSiblings_iff (hp : IsAddressed s root p) (hstop : p.IsStop)
    (h : p.followingSiblings s .standard = .ok qs) :
    (∀ ms, (∃ q ∈ qs, q.nodes = ms) ↔ Ahead s p.nodes ms) ∧
      qs.Pairwise fun q q' => s.PartsBefore q.nodes q'.nodes := by
  cases hparent : p.parent? with
  | none =>
    obtain rfl := Except.ok.inj ((followingSiblings_root hparent).symm.trans h)
    refine ⟨fun ms => ⟨fun ⟨_, hq, _⟩ => absurd hq List.not_mem_nil, ?_⟩, .nil⟩
    rintro ⟨n, m, ks, hn, -, hchild, -⟩
    obtain rfl : ks = [] := by
      simpa [nodes_eq, above_eq_nil_of_parent? hparent] using (List.cons.inj hn).2.symm
    exact absurd hchild Store.not_hasChild_nil
  | some parent =>
    obtain ⟨holder, before, after, hend, hchildren, hafter⟩ :=
      exists_followingSiblings hp hstop hparent
    obtain rfl := Except.ok.inj (hafter.symm.trans h)
    have hpairs := Store.pairwise_childNodes (s := s) holder
    rw [hchildren] at hpairs
    obtain ⟨-, hrest, hbefore⟩ := List.pairwise_append.1 hpairs
    obtain ⟨hfirst, hrest⟩ := List.pairwise_cons.1 hrest
    have hchild (node : Node) : s.HasChild parent.nodes (node :: parent.nodes) ↔
        node ∈ before ++ p.node :: after := by
      rw [nodes_eq parent, Store.hasChild_iff_of_holder hend, hchildren]
      simp
    refine ⟨fun ms => ⟨?_, ?_⟩, List.pairwise_map.2
      (hrest.imp fun hlt => Store.partsBefore_cons hlt parent.nodes)⟩
    · rintro ⟨q, hq, rfl⟩
      obtain ⟨node, hnode, rfl⟩ := List.mem_map.1 hq
      exact ⟨p.node, node, parent.nodes, nodes_parent? hparent, rfl,
        (hchild node).2 (by simp [hnode]), hfirst node hnode⟩
    · rintro ⟨n, m, ks, hn, rfl, hm, hlt⟩
      obtain ⟨rfl, rfl⟩ := List.cons.inj ((nodes_parent? hparent).symm.trans hn)
      rcases List.mem_append.1 ((hchild m).1 hm) with hm | hm
      · have hgt := Std.OrientedCmp.gt_of_lt (hbefore m hm p.node (List.mem_cons_self ..))
        rw [hlt] at hgt
        cases hgt
      · rcases List.mem_cons.1 hm with rfl | hm
        · exact absurd rfl (Node.ne_of_compareSiblings hlt)
        · exact ⟨_, List.mem_map.2 ⟨m, hm, rfl⟩, rfl⟩

/-! ## All that follows -/

/-- What is found at one level of a chain: the siblings that follow with all that is below them. -/
def level (s : Store) (p : Pointer) : Except PathError (List Pointer) := do
  let trees ← (← p.followingSiblings s .standard).mapM fun q => do
    pure (q :: (← (← q.descendants s .standard).all))
  pure trees.flatten

theorem following_eq (p : Pointer) : p.following s .standard = (do
    let levels ← (p :: p.ancestors).mapM (level s)
    pure levels.flatten) := rfl

/-- The tree of a node: the node and all that is below it, in document order. -/
structure IsTree (s : Store) (q : Pointer) (tree : List Pointer) : Prop where
  found {ms : List Node} : (∃ x ∈ tree, x.nodes = ms) ↔ ReflTransGen s.HasChild q.nodes ms
  ordered : tree.Pairwise fun x y => s.Earlier x.nodes y.nodes

theorem isTree_of_descendants {tree : List Pointer} (hacyclic : s.Acyclic root.value)
    (hq : IsAddressed s root q)
    (h : (do pure (q :: (← (← q.descendants s .standard).all))) = Except.ok tree) :
    IsTree s q tree := by
  obtain ⟨below, hbelow, h⟩ := Except.bind_eq_ok_iff.1 h
  obtain ⟨all, hall, h⟩ := Except.bind_eq_ok_iff.1 h
  obtain rfl := Except.ok.inj h
  obtain ⟨gs, ha⟩ := hq
  have hfinds := (finds_descendants hacyclic (IsAddressed.isSingle ⟨gs, ha⟩)
    (fun v hend => ha.reaches hend) hbelow).2
  rw [Search.all_eq_ok_iff.1 hall] at hfinds
  exact ⟨hfinds.found rfl, hfinds.ordered rfl⟩

/-- Trees of nodes that part are in document order if the nodes are. -/
theorem trees_iff {qs : List Pointer} {trees : List (List Pointer)}
    (htrees : List.Forall₂ (IsTree s) qs trees)
    (hqs : qs.Pairwise fun q q' => s.PartsBefore q.nodes q'.nodes) :
    (∀ ms, (∃ x ∈ trees.flatten, x.nodes = ms) ↔
        ∃ q ∈ qs, ReflTransGen s.HasChild q.nodes ms) ∧
      trees.flatten.Pairwise fun x y => s.Earlier x.nodes y.nodes := by
  induction htrees with
  | nil => exact ⟨by simp, .nil⟩
  | @cons q tree qs trees htree _ ih =>
    obtain ⟨hfirst, hqs⟩ := List.pairwise_cons.1 hqs
    obtain ⟨hrest, htrees⟩ := ih hqs
    constructor
    · intro ms
      simp only [List.flatten_cons, List.mem_append, or_and_right, exists_or, List.mem_cons,
        exists_eq_left, htree.found, hrest]
    · refine List.pairwise_append.2 ⟨htree.ordered, htrees, fun x hx y hy => .inl ?_⟩
      obtain ⟨q', hq', hy⟩ := (hrest _).1 ⟨y, hy, rfl⟩
      exact (hfirst q' hq').extend (Store.suffix_of_reflTransGen (htree.found.1 ⟨x, hx, rfl⟩))
        (Store.suffix_of_reflTransGen hy)

/-- **What follows a node at its own level.** -/
theorem level_iff (hacyclic : s.Acyclic root.value) (hp : IsAddressed s root p) (hstop : p.IsStop)
    (h : level s p = .ok qs) :
    (∀ ms, (∃ q ∈ qs, q.nodes = ms) ↔
        ∃ ks, Ahead s p.nodes ks ∧ ReflTransGen s.HasChild ks ms) ∧
      qs.Pairwise fun q q' => s.Earlier q.nodes q'.nodes := by
  obtain ⟨after, hafter, h⟩ := Except.bind_eq_ok_iff.1 h
  obtain ⟨trees, htrees, h⟩ := Except.bind_eq_ok_iff.1 h
  obtain rfl := Except.ok.inj h
  obtain ⟨hahead, hordered⟩ := followingSiblings_iff hp hstop hafter
  have haddressed : ∀ q ∈ after, IsAddressed s root q :=
    fun q => (kept_isAddressed s root).followingSiblings hp hafter
  have htrees := ((List.forall₂_and_left ..).2 ⟨haddressed, Except.mapM_eq_ok_iff.1 htrees⟩).imp
    fun q tree ⟨hq, htree⟩ => isTree_of_descendants hacyclic hq htree
  obtain ⟨hfound, hpairs⟩ := trees_iff htrees hordered
  refine ⟨fun ms => (hfound ms).trans ?_, hpairs⟩
  simp only [← hahead]
  exact ⟨fun ⟨q, hq, hms⟩ => ⟨_, ⟨q, hq, rfl⟩, hms⟩, fun ⟨_, ⟨q, hq, hks⟩, hms⟩ => ⟨q, hq, hks ▸ hms⟩⟩

/-- In a flat graph no pointer at an address ends in an item of a list. -/
theorem IsAddressed.isStop (hflat : s.FlatLists root.value) (hp : IsAddressed s root p) :
    p.IsStop := by
  intro l name index hnode
  obtain ⟨gs, ha⟩ := hp
  rw [nodes_eq, hnode] at ha
  generalize hitems : Node.items l name index = n at ha
  generalize p.above.map Visit.node = ns at ha
  cases ha with
  | root => cases root <;> simp [Holder.value, Value.node] at hitems
  | slot => cases hitems
  | item hn hend => exact absurd hend (hn.end?_ne_list hflat _)

/-- Two chains part below the first node of the first one, or above it. -/
theorem partsBefore_cons_iff {n : Node} {ns ms : List Node} :
    s.PartsBefore (n :: ns) ms ↔
      (∃ m, m :: ns <:+ ms ∧ n.compareSiblings s m = .lt) ∨ s.PartsBefore ns ms := by
  constructor
  · rintro ⟨a, b, ks, ha, hb, hlt⟩
    rcases List.suffix_cons_iff.1 ha with heq | ha
    · obtain ⟨rfl, rfl⟩ := List.cons.inj heq
      exact .inl ⟨b, hb, hlt⟩
    · exact .inr ⟨a, b, ks, ha, hb, hlt⟩
  · rintro (⟨m, hm, hlt⟩ | h)
    · exact ⟨n, m, ns, List.suffix_rfl, hm, hlt⟩
    · exact h.extend (List.suffix_cons n ns) List.suffix_rfl

/-- In a flat graph what is below a sibling that follows is what goes on after the node. -/
theorem exists_ahead_iff {n m : Node} {ns ms : List Node} {gs : List Segment}
    (hflat : s.FlatLists root.value) (ha : Addressed s root ms gs) :
    (∃ ks, Ahead s (n :: m :: ns) ks ∧ ReflTransGen s.HasChild ks ms) ↔
      ∃ k, k :: m :: ns <:+ ms ∧ n.compareSiblings s k = .lt := by
  constructor
  · rintro ⟨_, ⟨_, k, _, hn, rfl, -, hlt⟩, hms⟩
    obtain ⟨rfl, rfl⟩ := List.cons.inj hn
    exact ⟨k, Store.suffix_of_reflTransGen hms, hlt⟩
  · rintro ⟨k, ⟨below, rfl⟩, hlt⟩
    obtain ⟨gs', ha'⟩ := ha.suffix
    exact ⟨_, ⟨n, k, _, rfl, rfl, ha'.hasChild_of_flat hflat, hlt⟩, ha.reflTransGen hflat⟩

/-- **All that follows a node of a flat graph**: the chains that part from its own and go on after
it, in document order. Induction up the chain. -/
theorem following_iff (hacyclic : s.Acyclic root.value) (hflat : s.FlatLists root.value)
    (hp : IsAddressed s root p) (h : p.following s .standard = .ok qs) :
    (∀ ms, (∃ q ∈ qs, q.nodes = ms) ↔
        (∃ gs, Addressed s root ms gs) ∧ s.PartsBefore p.nodes ms) ∧
      qs.Pairwise fun q q' => s.Earlier q.nodes q'.nodes := by
  obtain ⟨levels, hlevels, hqs⟩ := Except.bind_eq_ok_iff.1 ((following_eq p).symm.trans h)
  obtain rfl := Except.ok.inj hqs
  rw [Except.mapM_eq_ok_iff] at hlevels
  clear h hqs
  induction p using ancestors_induction generalizing levels with
  | top p hnone hnil =>
    rw [hnil] at hlevels
    obtain ⟨found, _, hfound, hrest, rfl⟩ := List.forall₂_cons_left_iff.1 hlevels
    obtain rfl := List.forall₂_nil_left_iff.1 hrest
    obtain ⟨hahead, hordered⟩ := level_iff hacyclic hp (hp.isStop hflat) hfound
    have hnodes : p.nodes = [root.value.node none] := by
      obtain ⟨gs, ha⟩ := hp
      have hone : p.nodes = [p.node] := by
        rw [nodes_eq, List.map_eq_nil_iff.2 (above_eq_nil_of_parent? hnone)]
      simpa [hone] using ha.getLast?
    rw [List.flatten_cons, List.flatten_nil, List.append_nil]
    refine ⟨fun ms => (hahead ms).trans ⟨?_, ?_⟩, hordered⟩
    · rintro ⟨_, ⟨_, _, ks, hn, -, hchild, -⟩, -⟩
      obtain rfl : ks = [] := (List.cons.inj (hnodes.symm.trans hn)).2.symm
      exact absurd hchild Store.not_hasChild_nil
    · rintro ⟨⟨gs, ha⟩, hparts⟩
      exact absurd (hnodes ▸ hparts) ha.not_partsBefore_root
  | up p parent hparent hcons ih =>
    rw [hcons] at hlevels
    obtain ⟨found, levels, hfound, hrest, rfl⟩ := List.forall₂_cons_left_iff.1 hlevels
    obtain ⟨hahead, hordered⟩ := level_iff hacyclic hp (hp.isStop hflat) hfound
    have hup := (kept_isAddressed s root).parent hp hparent
    obtain ⟨habove, hlevels⟩ := ih hup levels hrest
    have hnodes := nodes_parent? hparent
    rw [List.flatten_cons]
    constructor
    · intro ms
      simp only [List.mem_append, or_and_right, exists_or, hahead, habove, and_or_left, hnodes,
        partsBefore_cons_iff]
      refine or_congr_left ⟨fun hms => ?_, fun ⟨⟨gs, ha⟩, hms⟩ => ?_⟩
      · obtain ⟨_, ⟨n, m, ns, hn, rfl, hchild, hlt⟩, hms⟩ := hms
        obtain ⟨rfl, rfl⟩ := List.cons.inj hn
        obtain ⟨gs, ha⟩ := hup
        obtain ⟨gs, ha⟩ := ha.exists_of_hasChild hchild
        exact ⟨ha.exists_of_reflTransGen hms, m, Store.suffix_of_reflTransGen hms, hlt⟩
      · rw [nodes_eq parent] at hms ⊢
        exact (exists_ahead_iff hflat ha).2 hms
    · refine List.pairwise_append.2 ⟨hordered, hlevels, fun x hx y hy => .inl ?_⟩
      obtain ⟨-, hparts⟩ := (habove _).1 ⟨y, hy, rfl⟩
      obtain ⟨_, ⟨n, m, ns, hn, rfl, -, -⟩, hx⟩ := (hahead _).1 ⟨x, hx, rfl⟩
      obtain ⟨rfl, rfl⟩ := List.cons.inj (hnodes.symm.trans hn)
      exact hparts.extend ((List.suffix_cons ..).trans (Store.suffix_of_reflTransGen hx))
        List.suffix_rfl

end Pointer

end PathQuery
