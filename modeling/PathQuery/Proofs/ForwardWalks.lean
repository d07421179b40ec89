import PathQuery.Proofs.OnePerPath
import PathQuery.Proofs.UnfailingWalks

/-!
# Forward walks in document order

A step puts what it finds from one node after what it finds from the node before, so its nodes are
in document order only if nodes that are found later lead on to nodes that come later, or to none
that are new. That holds of nodes at one depth, and of nodes that a walk down starts from.

* names: `Axis.Leads`, `Pointer.IsRow`, `Pointer.IsSorted`, `Axis.inOrder`.
* **`leads_iff`**: what a forward axis leads to. **`isSorted_advance`**: when a step keeps an order.
  **`evaluate_forward`**: the paths whose nodes are in document order.
* `evaluate_disordered`: a double slash finds a node before one that comes earlier.
-/

namespace PathQuery

open Relation (ReflTransGen TransGen)

/-! ## What an axis leads to -/

/-- The chains of the nodes to which a forward axis leads from a chain. -/
def Axis.Leads (s : Store) (root : Holder) : Axis → List Node → List Node → Prop
  | .self, ns, ms => ns = ms
  | .child, ns, ms => s.HasChild ns ms
  | .followingSibling, ns, ms => Pointer.Ahead s ns ms
  | .descendant, ns, ms => TransGen s.HasChild ns ms
  | .descendantOrSelf, ns, ms => ReflTransGen s.HasChild ns ms
  | .following, ns, ms => (∃ gs, Addressed s root ms gs) ∧ s.PartsBefore ns ms
  | _, _, _ => False

/-- The axis stays at one depth, or goes one level down. -/
def Axis.isLevel : Axis → Bool
  | .self | .child | .followingSibling => true
  | _ => false

/-- The axis leads to the node itself, or anywhere below it. -/
def Axis.isDescent : Axis → Bool
  | .self | .descendant | .descendantOrSelf => true
  | _ => false

/-- Axes that stay at one depth; then perhaps one to all that is below or all that follows; and from
there only down. -/
def Axis.inOrder : List Axis → Bool
  | [] => true
  | axis :: axes =>
    if axis.isLevel then inOrder axes
    else (axis.isDescent || axis == .following) && axes.all Axis.isDescent

theorem Axis.isForward_of_isDescent {axis : Axis} (h : axis.isDescent = true) :
    axis.isForward = true := by
  cases axis <;> first | rfl | cases h

theorem Axis.isForward_of_isLevel {axis : Axis} (h : axis.isLevel = true) :
    axis.isForward = true := by
  cases axis <;> first | rfl | cases h

theorem Axis.isForward_of_inOrder {axes : List Axis} {axis : Axis} (h : inOrder axes = true)
    (haxis : axis ∈ axes) : axis.isForward = true := by
  induction axes with
  | nil => cases haxis
  | cons first axes ih =>
    rw [inOrder] at h
    rcases List.mem_cons.1 haxis with rfl | haxis
    · split at h
      · next hlevel => exact isForward_of_isLevel hlevel
      · simp only [Bool.and_eq_true, Bool.or_eq_true, beq_iff_eq] at h
        rcases h.1 with hdescent | rfl
        · exact isForward_of_isDescent hdescent
        · rfl
    · split at h
      · exact ih h haxis
      · simp only [Bool.and_eq_true, List.all_eq_true] at h
        exact isForward_of_isDescent (h.2 axis haxis)

namespace Pointer

variable {s t : Store} {root : Holder} {p q : Pointer} {axis : Axis} {a : Search}

/-- **What a forward axis leads to**, in document order. -/
theorem leads_iff (hacyclic : s.Acyclic root.value) (haxis : axis.isForward = true)
    (hflat : axis = .following → s.FlatLists root.value)
    (hstop : axis = .followingSibling → p.IsStop) (hp : IsAddressed s root p)
    (ha : p.along s .standard axis = .ok a) (hfailure : a.nodes.failure = none) :
    (∀ ms, (∃ q ∈ a.nodes.items, q.nodes = ms) ↔ axis.Leads s root p.nodes ms) ∧
      a.nodes.items.Pairwise fun q q' => s.Earlier q.nodes q'.nodes := by
  have hfinds {b : Search} (hb : p.descendants s .standard = .ok b) :=
    finds_descendants hacyclic hp.isSingle
      (fun v hend => hp.choose_spec.reaches hend) hb
  cases axis with
  | self =>
    obtain rfl := Except.ok.inj ha
    rw [elements, if_neg (by simp [hp.not_isWholeCollection]), Search.nodes_ofList]
    exact ⟨fun ms => by simp [Axis.Leads], List.pairwise_singleton ..⟩
  | child =>
    obtain ⟨cs, hcs, rfl⟩ := Except.map_eq_ok_iff.1 ha
    rw [Search.nodes_ofList]
    exact ⟨fun ms => (hasChild_iff hp.isSingle hcs).symm,
      (pairwise_children hp.isSingle hcs).imp .inl⟩
  | followingSibling =>
    obtain ⟨qs, hqs, rfl⟩ := Except.map_eq_ok_iff.1 ha
    rw [Search.nodes_ofList]
    obtain ⟨hfound, hpairs⟩ := followingSiblings_iff hp (hstop rfl) hqs
    exact ⟨hfound, hpairs.imp .inl⟩
  | descendant => exact ⟨fun ms => (hfinds ha).1.found hfailure, (hfinds ha).1.ordered hfailure⟩
  | descendantOrSelf =>
    obtain ⟨below, hbelow, ha⟩ := Except.bind_eq_ok_iff.1 ha
    obtain rfl := Except.ok.inj ha
    rw [Search.nodes_found] at hfailure ⊢
    exact ⟨fun ms => (hfinds hbelow).2.found hfailure, (hfinds hbelow).2.ordered hfailure⟩
  | following =>
    obtain ⟨qs, hqs, rfl⟩ := Except.map_eq_ok_iff.1 ha
    rw [Search.nodes_ofList]
    exact following_iff hacyclic (hflat rfl) hp hqs
  | _ => cases haxis

/-- A test looks at nothing but the chain. -/
theorem passes_congr (h : p.nodes = q.nodes) (test : NodeTest) :
    p.passes s test = q.passes s test := by
  have hnode : p.node = q.node := by
    rw [nodes_eq p, nodes_eq q] at h
    exact (List.cons.inj h).1
  have huri : p.uri? s = q.uri? s := by funext qualifier; rw [uri?, uri?, h]
  have hdefault : p.defaultUri? s = q.defaultUri? s := by rw [defaultUri?, defaultUri?, h]
  cases test <;> simp only [passes, sameNamespace, hnode, huri, hdefault]

/-! ## One pointer for each path -/

theorem exists_uniqueFrom_append (seen : TextSet) (ps qs : List Pointer) :
    ∃ seen', (∀ p ∈ ps, seen'.contains (p.path s) = true) ∧
      (∀ path, seen.contains path = true → seen'.contains path = true) ∧
      uniqueFrom s seen (ps ++ qs) = uniqueFrom s seen ps ++ uniqueFrom s seen' qs := by
  induction ps generalizing seen with
  | nil => exact ⟨seen, by simp, fun _ h => h, rfl⟩
  | cons p ps ih =>
    rw [List.cons_append, uniqueFrom, uniqueFrom]
    split
    · next hseen =>
      obtain ⟨seen', hps, hmono, heq⟩ := ih seen
      exact ⟨seen', List.forall_mem_cons.2 ⟨hmono _ hseen, hps⟩, hmono, heq⟩
    · obtain ⟨seen', hps, hmono, heq⟩ := ih (seen.insert (p.path s))
      refine ⟨seen', List.forall_mem_cons.2 ⟨hmono _ ?_, hps⟩, fun path h => hmono _ ?_, ?_⟩
      · simp
      · simp [Std.TreeSet.contains_insert, h]
      · rw [heq, List.cons_append]

/-- What is found from nodes in turn keeps an order if what is found later comes later or has been
found. -/
theorem pairwise_uniqueFrom_flatMap {R : Pointer → Pointer → Prop} {g : Pointer → List Pointer}
    {ps : List Pointer} (hg : ∀ p ∈ ps, (g p).Pairwise R)
    (hcross : ps.Pairwise fun p p' => (∀ q' ∈ g p', ∃ q ∈ g p, q.nodes = q'.nodes) ∨
      ∀ q ∈ g p, ∀ q' ∈ g p', R q q') (seen : TextSet) :
    (uniqueFrom s seen (ps.flatMap g)).Pairwise R := by
  induction ps generalizing seen with
  | nil => exact .nil
  | cons p ps ih =>
    obtain ⟨hfirst, hcross⟩ := List.pairwise_cons.1 hcross
    obtain ⟨seen', hseen, -, heq⟩ := exists_uniqueFrom_append (s := s) seen (g p) (ps.flatMap g)
    rw [List.flatMap_cons, heq]
    refine List.pairwise_append.2 ⟨(hg p (List.mem_cons_self ..)).sublist uniqueFrom_sublist,
      ih (fun p hp => hg p (List.mem_cons_of_mem _ hp)) hcross seen', fun q hq q' hq' => ?_⟩
    obtain ⟨p', hp', hmem⟩ := List.mem_flatMap.1 (mem_of_mem_uniqueFrom hq')
    rcases hfirst p' hp' with hcovered | hR
    · obtain ⟨x, hx, hnodes⟩ := hcovered q' hmem
      have hpath : x.path s = q'.path s := by rw [path, path, hnodes]
      have hnew := path_uniqueFrom.2 q' hq'
      rw [← hpath, hseen x hx] at hnew
      cases hnew
    · exact hR q (mem_of_mem_uniqueFrom hq) q' hmem

/-! ## Sorted nodes -/

/-- The pointers are at addresses and in document order. -/
structure IsSorted (s : Store) (root : Holder) (ps : List Pointer) : Prop where
  addressed : ∀ p ∈ ps, IsAddressed s root p
  ordered : ps.Pairwise fun p q => s.Earlier p.nodes q.nodes

end Pointer

theorem Axis.leads_congr {s t : Store} {root : Holder} (ht : s.SameGraph t) (axis : Axis) :
    axis.Leads t root = axis.Leads s root := by
  have haddressed (ms : List Node) :
      (∃ gs, Addressed t root ms gs) ↔ ∃ gs, Addressed s root ms gs :=
    ⟨.imp fun _ h => h.congr ht.symm, .imp fun _ h => h.congr ht⟩
  funext ns ms
  cases axis <;> simp only [Axis.Leads, ht.hasChild, ht.partsBefore, Pointer.Ahead,
    ht.compareSiblings, haddressed]

namespace Environment

open Pointer

variable {s : Store} {root : Holder} {env : Environment} {axis : Axis} {test : NodeTest}
variable {o : Occasion} {a : Search} {ps : List Pointer}

/-- **What a step without predicates finds from a node**: what its axis leads to and its test
passes, in document order. -/
theorem find_iff {p : Pointer} (hacyclic : s.Acyclic root.value) (haxis : axis.isForward = true)
    (hflat : axis = .following → s.FlatLists root.value)
    (hstop : axis = .followingSibling → p.IsStop) (hp : IsAddressed s root p)
    (h : (env.find .standard s o axis test [] p).nodes.failure = none) :
    let found := (env.find .standard s o axis test [] p).nodes.items
    (∀ ms, (∃ q ∈ found, q.nodes = ms) ↔
        axis.Leads s root p.nodes ms ∧
          ∃ q : Pointer, q.nodes = ms ∧ q.passes (s.on (o.part 0)) test = true) ∧
      found.Pairwise fun q q' => s.Earlier q.nodes q'.nodes := by
  intro found
  have hgraph := Store.SameGraph.on s (o.part 0)
  obtain ⟨b, hb, hfailure, hitems⟩ := exists_along_of_candidates h
  have hitems : found = b.nodes.items.filter fun q => q.passes (s.on (o.part 0)) test := hitems
  obtain ⟨hleads, hordered⟩ := leads_iff (hacyclic.congr hgraph) haxis
    (fun h => (hflat h).congr hgraph) hstop (isAddressed_congr hgraph ▸ hp) hb hfailure
  rw [Axis.leads_congr hgraph] at hleads
  rw [hgraph.earlier] at hordered
  rw [hitems]
  refine ⟨fun ms => ?_, hordered.filter _⟩
  rw [← hleads]
  constructor
  · rintro ⟨q, hq, rfl⟩
    obtain ⟨hq, hpasses⟩ := List.mem_filter.1 hq
    exact ⟨⟨q, hq, rfl⟩, q, rfl, hpasses⟩
  · rintro ⟨⟨x, hx, rfl⟩, q, hq, hpasses⟩
    exact ⟨x, List.mem_filter.2 ⟨hx, (passes_congr hq test).symm.trans hpasses⟩, rfl⟩

/-- **A step keeps document order** if of two nodes the later one leads on to nodes that come later,
or to none that are new. -/
theorem isSorted_advance (hacyclic : s.Acyclic root.value) (haxis : axis.isForward = true)
    (hflat : axis = .following → s.FlatLists root.value)
    (hstop : axis = .followingSibling → ∀ p ∈ ps, p.IsStop) (hps : IsSorted s root ps)
    (hcross : ps.Pairwise fun p p' =>
      (axis.overlaps = true ∧ ∀ ms, axis.Leads s root p'.nodes ms → axis.Leads s root p.nodes ms) ∨
      ∀ ms ms', axis.Leads s root p.nodes ms → axis.Leads s root p'.nodes ms' → s.Earlier ms ms')
    (ha : a.nodes = .ofList ps)
    (h : (advance s axis (env.find .standard s o axis test []) a).nodes.failure = none) :
    let found := (advance s axis (env.find .standard s o axis test []) a).nodes.items
    IsSorted s root found ∧ ∀ q ∈ found, ∃ p ∈ ps, axis.Leads s root p.nodes q.nodes := by
  intro found
  let g (p : Pointer) : List Pointer := (env.find .standard s o axis test [] p).nodes.items
  obtain ⟨hfailure, hitems⟩ := nodes_advance h
  rw [ha] at hfailure hitems
  obtain ⟨-, hfound, hflatMap⟩ := Nodes.flatMap_of_failure_eq_none hfailure
  rw [hflatMap] at hitems
  have hfinds (p : Pointer) (hp : p ∈ ps) := find_iff hacyclic haxis hflat
    (fun h => hstop h p hp) (hps.addressed p hp) (hfound p hp)
  have hleads : ∀ q ∈ found, ∃ p ∈ ps, axis.Leads s root p.nodes q.nodes := by
    intro q hq
    obtain ⟨p, hp, hq⟩ := mem_advance hq
    rw [ha] at hp
    exact ⟨p, hp, (((hfinds p hp).1 _).1 ⟨q, hq, rfl⟩).1⟩
  have haddressed : ∀ q ∈ found, IsAddressed s root q := by
    intro q hq
    obtain ⟨p, hp, hq⟩ := mem_advance hq
    rw [ha] at hp
    rw [isAddressed_congr (Store.SameGraph.on s (o.part 0))]
    refine kept_candidates (fun hp hb hq => ?_) ?_ (mem_find hq)
    · exact (kept_isAddressed _ root).along (Axis.ne_attribute haxis) hp hb hq
    · exact isAddressed_congr (Store.SameGraph.on s (o.part 0)) ▸ hps.addressed p hp
  have hblocks : ∀ p ∈ ps, (g p).Pairwise fun q q' => s.Earlier q.nodes q'.nodes :=
    fun p hp => (hfinds p hp).2
  have hcross' : ps.Pairwise fun p p' =>
      (axis.overlaps = true ∧ ∀ q' ∈ g p', ∃ q ∈ g p, q.nodes = q'.nodes) ∨
        ∀ q ∈ g p, ∀ q' ∈ g p', s.Earlier q.nodes q'.nodes := by
    refine hcross.imp_of_mem fun {p p'} hp hp' h => ?_
    have hp := (hfinds p hp).1
    have hp' := (hfinds p' hp').1
    refine h.imp (fun ⟨hoverlaps, h⟩ => ⟨hoverlaps, fun q' hq' => ?_⟩)
      fun h q hq q' hq' => h _ _ ((hp _).1 ⟨q, hq, rfl⟩).1 ((hp' _).1 ⟨q', hq', rfl⟩).1
    obtain ⟨hms, hpasses⟩ := (hp' _).1 ⟨q', hq', rfl⟩
    exact (hp _).2 ⟨h _ hms, hpasses⟩
  refine ⟨⟨haddressed, ?_⟩, hleads⟩
  rcases hitems with hitems | ⟨hitems, hfew⟩
  · rw [show found = _ from hitems]
    exact pairwise_uniqueFrom_flatMap hblocks (hcross'.imp fun h => h.imp_left And.right) _
  · rw [show found = _ from hitems]
    refine List.pairwise_flatMap.2 ⟨hblocks, ?_⟩
    rcases hfew with hoverlaps | hlength
    · refine hcross'.imp fun h => ?_
      rcases h with ⟨h, -⟩ | h
      · rw [hoverlaps] at h
        cases h
      · exact h
    · cases ps with
      | nil => exact .nil
      | cons p rest =>
        obtain rfl : rest = [] := List.length_eq_zero_iff.1 (by simpa using hlength)
        exact List.pairwise_singleton ..

end Environment

/-! ## Rows -/

/-- The node is a slot. -/
def Node.isSlot : Node → Bool
  | slot .. => true
  | _ => false

/-- How many slots a chain goes through. -/
def slotDepth (ns : List Node) : Nat := ns.countP Node.isSlot

section Depth

variable {s : Store} {root : Holder} {n n' : Node} {ns ns' ms : List Node} {gs gs' : List Segment}

theorem slotDepth_le (h : ns <:+ ms) : slotDepth ns ≤ slotDepth ms := h.sublist.countP_le

theorem Store.HasChild.exists_slot (h : s.HasChild ns ms) :
    ∃ m ks, ms = m :: ks ∧ m.isSlot = true ∧ slotDepth ms = slotDepth ns + 1 := by
  obtain ⟨is, name, index, hchain⟩ := h.exists_childChain
  obtain ⟨holder, items, rfl, hitems⟩ := hchain.exists_append
  refine ⟨_, _, rfl, rfl, ?_⟩
  have hnone : items.countP Node.isSlot = 0 := by
    rw [List.countP_eq_zero]
    intro n hn
    obtain ⟨l, label, i, rfl⟩ := hitems n hn
    simp [Node.isSlot]
  rw [slotDepth, List.countP_cons_of_pos rfl, List.countP_append, hnone, Nat.zero_add]
  rfl

theorem slotDepth_of_transGen (h : TransGen s.HasChild ns ms) : slotDepth ns < slotDepth ms := by
  induction h with
  | single h =>
    obtain ⟨_, _, _, _, hdepth⟩ := h.exists_slot
    omega
  | tail _ h ih =>
    obtain ⟨_, _, _, _, hdepth⟩ := h.exists_slot
    omega

theorem Pointer.Ahead.exists_slot (h : Pointer.Ahead s ns ms) :
    ∃ n m ks, ns = n :: ks ∧ ms = m :: ks ∧ m.isSlot = true ∧ ks ≠ [] := by
  obtain ⟨n, m, ks, rfl, rfl, hchild, -⟩ := h
  obtain ⟨_, _, hm, hslot, -⟩ := hchild.exists_slot
  obtain ⟨rfl, rfl⟩ := List.cons.inj hm
  refine ⟨n, m, ks, rfl, rfl, hslot, ?_⟩
  rintro rfl
  exact Store.not_hasChild_nil hchild

/-- Below the node above a slot there are only slots. -/
theorem Addressed.isSlot_of_cons {a m : Node} (ha : Addressed s root (n :: m :: ns) gs)
    (hn : n.isSlot = true) (ha' : Addressed s root (a :: m :: ns) gs') : a.isSlot = true := by
  cases ha' with
  | slot => rfl
  | item hm hend =>
    cases ha with
    | slot _ hend' _ _ =>
      have hholder := congrArg Value.holder? (Option.some.inj (hend'.symm.trans hend))
      rw [Holder.holder?_value] at hholder
      cases hholder
    | item => cases hn

/-- Of two slots at one depth that part, the nodes above them are one or part. -/
theorem partsBefore_tail (hn : n.isSlot = true) (hn' : n'.isSlot = true)
    (hns : ns ≠ []) (hns' : ns' ≠ [])
    (ha : Addressed s root (n :: ns) gs) (ha' : Addressed s root (n' :: ns') gs')
    (hdepth : slotDepth (n :: ns) = slotDepth (n' :: ns'))
    (h : s.PartsBefore (n :: ns) (n' :: ns')) :
    ns = ns' ∧ n.compareSiblings s n' = .lt ∨ s.PartsBefore ns ns' := by
  obtain ⟨a, b, ks, hsuffix, hsuffix', hlt⟩ := h
  have hcons {n : Node} (hn : n.isSlot = true) (ns : List Node) :
      slotDepth (n :: ns) = slotDepth ns + 1 := List.countP_cons_of_pos hn
  rw [hcons hn, hcons hn'] at hdepth
  obtain ⟨m, ms, rfl⟩ := List.exists_cons_of_ne_nil hns
  obtain ⟨m', ms', rfl⟩ := List.exists_cons_of_ne_nil hns'
  rcases List.suffix_cons_iff.1 hsuffix with heq | hbelow <;>
    rcases List.suffix_cons_iff.1 hsuffix' with heq' | hbelow'
  · obtain ⟨rfl, rfl⟩ := List.cons.inj heq
    obtain ⟨rfl, htail⟩ := List.cons.inj heq'
    exact .inl ⟨htail, hlt⟩
  · -- the second slot would be below a slot beside the first
    obtain ⟨rfl, rfl⟩ := List.cons.inj heq
    obtain ⟨as, has⟩ := hsuffix'
    obtain ⟨gs'', hb⟩ := (has ▸ ha').suffix
    have := slotDepth_le hbelow'
    rw [hcons (ha.isSlot_of_cons hn hb)] at this
    omega
  · obtain ⟨rfl, rfl⟩ := List.cons.inj heq'
    obtain ⟨as, has⟩ := hsuffix
    obtain ⟨gs'', hb⟩ := (has ▸ ha).suffix
    have := slotDepth_le hbelow
    rw [hcons (ha'.isSlot_of_cons hn' hb)] at this
    omega
  · exact .inr ⟨a, b, ks, hbelow, hbelow', hlt⟩

end Depth

namespace Pointer

variable {s : Store} {root : Holder} {p q : Pointer} {ps : List Pointer} {ns ms : List Node}

/-- Sorted slots at one depth. -/
structure IsRow (s : Store) (root : Holder) (ps : List Pointer) : Prop extends
    IsSorted s root ps where
  stop : ∀ p ∈ ps, p.IsStop
  depth : ∃ n, ∀ p ∈ ps, slotDepth p.nodes = n

/-- At one depth no node is below another. -/
theorem IsRow.partsBefore (h : IsRow s root ps) :
    ps.Pairwise fun p q => s.PartsBefore p.nodes q.nodes := by
  obtain ⟨n, hdepth⟩ := h.depth
  refine h.ordered.imp_of_mem fun {p q} hp hq hearlier => hearlier.resolve_right fun hbelow => ?_
  have := slotDepth_of_transGen hbelow
  rw [hdepth p hp, hdepth q hq] at this
  omega

theorem IsAddressed.isSlot (hp : IsAddressed s root p) (hstop : p.IsStop)
    (hnodes : p.nodes = n :: ns) (hns : ns ≠ []) : n.isSlot = true := by
  obtain ⟨gs, ha⟩ := hp
  obtain ⟨rfl, -⟩ := List.cons.inj ((nodes_eq p).symm.trans hnodes)
  rw [hnodes] at ha
  generalize hn : p.node = n at ha
  cases ha with
  | root => exact absurd rfl hns
  | slot => rfl
  | item => exact absurd hn (hstop _ _ _)

end Pointer

namespace Pointer

variable {s : Store} {root : Holder} {p q : Pointer} {m : Node} {ks : List Node}

theorem isStop_of_isSlot (h : q.nodes = m :: ks) (hm : m.isSlot = true) : q.IsStop := by
  obtain ⟨rfl, -⟩ := List.cons.inj ((nodes_eq q).symm.trans h)
  intro l name index hnode
  rw [hnode] at hm
  cases hm

/-- An axis that stays at one depth leads to slots, all of them as far below. -/
theorem stop_of_leads {axis : Axis} (haxis : axis.isLevel = true) (hp : IsAddressed s root p)
    (hstop : p.IsStop) (h : axis.Leads s root p.nodes q.nodes) :
    q.IsStop ∧ slotDepth q.nodes = slotDepth p.nodes + if axis = .child then 1 else 0 := by
  cases axis with
  | self =>
    have h : p.nodes = q.nodes := h
    rw [h]
    rw [nodes_eq p, nodes_eq q] at h
    have hnode := (List.cons.inj h).1
    exact ⟨by simpa only [IsStop, ← hnode] using hstop, rfl⟩
  | child =>
    obtain ⟨m, ks, hm, hslot, hdepth⟩ := Store.HasChild.exists_slot h
    exact ⟨isStop_of_isSlot hm hslot, hdepth⟩
  | followingSibling =>
    obtain ⟨n, m, ks, hn, hm, hslot, hks⟩ := Ahead.exists_slot h
    refine ⟨isStop_of_isSlot hm hslot, ?_⟩
    rw [hn, hm, slotDepth, slotDepth, List.countP_cons_of_pos hslot,
      List.countP_cons_of_pos (hp.isSlot hstop hn hks)]
    rfl
  | _ => cases haxis

end Pointer

/-- **Along an axis that stays at one depth** the nodes of a row lead on to nodes that come one
after another, or to the same nodes. -/
theorem Axis.leads_row {s : Store} {root : Holder} {axis : Axis} {p p' : Pointer}
    (haxis : axis.isLevel = true) (hp : Pointer.IsAddressed s root p)
    (hp' : Pointer.IsAddressed s root p') (hstop : p.IsStop) (hstop' : p'.IsStop)
    (hdepth : slotDepth p.nodes = slotDepth p'.nodes) (hparts : s.PartsBefore p.nodes p'.nodes) :
    (axis.overlaps = true ∧ ∀ ms, axis.Leads s root p'.nodes ms → axis.Leads s root p.nodes ms) ∨
      ∀ ms ms', axis.Leads s root p.nodes ms → axis.Leads s root p'.nodes ms' →
        s.Earlier ms ms' := by
  cases axis with
  | self =>
    right
    rintro _ _ rfl rfl
    exact .inl hparts
  | child => exact .inr fun ms ms' h h' => .inl (hparts.extend h.suffix h'.suffix)
  | followingSibling =>
    by_cases hboth : (∃ ms, Pointer.Ahead s p.nodes ms) ∧ ∃ ms, Pointer.Ahead s p'.nodes ms
    · obtain ⟨⟨_, h⟩, _, h'⟩ := hboth
      obtain ⟨n, _, ks, hn, -, -, hks⟩ := h.exists_slot
      obtain ⟨n', _, ks', hn', -, -, hks'⟩ := h'.exists_slot
      have hslot := hp.isSlot hstop hn hks
      have hslot' := hp'.isSlot hstop' hn' hks'
      obtain ⟨gs, ha⟩ := hp
      obtain ⟨gs', ha'⟩ := hp'
      rw [hn] at ha hdepth hparts ⊢
      rw [hn'] at ha' hdepth hparts ⊢
      rcases partsBefore_tail hslot hslot' hks hks' ha ha' hdepth hparts with
        ⟨rfl, hlt⟩ | htails
      · refine .inl ⟨rfl, ?_⟩
        rintro _ ⟨_, m, _, heq, rfl, hchild, hlt'⟩
        obtain ⟨rfl, rfl⟩ := List.cons.inj heq
        exact ⟨n, m, _, rfl, rfl, hchild, Std.TransCmp.lt_trans hlt hlt'⟩
      · right
        rintro _ _ ⟨_, m, _, heq, rfl, -⟩ ⟨_, m', _, heq', rfl, -⟩
        obtain ⟨rfl, rfl⟩ := List.cons.inj heq
        obtain ⟨rfl, rfl⟩ := List.cons.inj heq'
        exact .inl (htails.extend (List.suffix_cons ..) (List.suffix_cons ..))
    · exact .inr fun ms ms' h h' => absurd ⟨⟨ms, h⟩, ms', h'⟩ hboth
  | _ => cases haxis

/-- Sorted nodes lead down to nodes that come one after another, or to nodes that have been found. -/
theorem Axis.leads_descent {s : Store} {root : Holder} {axis : Axis} {ns ns' : List Node}
    (haxis : axis.isDescent = true) (h : s.Earlier ns ns') :
    (axis.overlaps = true ∧ ∀ ms, axis.Leads s root ns' ms → axis.Leads s root ns ms) ∨
      ∀ ms ms', axis.Leads s root ns ms → axis.Leads s root ns' ms' → s.Earlier ms ms' := by
  cases axis with
  | self =>
    right
    rintro _ _ rfl rfl
    exact h
  | descendant =>
    refine h.symm.imp (fun h => ⟨rfl, fun ms h' => h.trans h'⟩) fun h ms ms' hms hms' => .inl ?_
    exact h.extend (Store.suffix_of_transGen hms).1 (Store.suffix_of_transGen hms').1
  | descendantOrSelf =>
    refine h.symm.imp (fun h => ⟨rfl, fun ms h' => h.to_reflTransGen.trans h'⟩)
      fun h ms ms' hms hms' => .inl ?_
    exact h.extend (Store.suffix_of_reflTransGen hms) (Store.suffix_of_reflTransGen hms')
  | _ => cases haxis

/-! ## Walks -/

namespace Environment

open Pointer

variable {s : Store} {root : Holder} {env : Environment} {axis : Axis} {test : NodeTest}
variable {o : Occasion} {a : Search} {ps : List Pointer} {steps : List Step}

theorem isRow_advance (hacyclic : s.Acyclic root.value) (haxis : axis.isLevel = true)
    (hps : IsRow s root ps) (ha : a.nodes = .ofList ps)
    (h : (advance s axis (env.find .standard s o axis test []) a).nodes.failure = none) :
    IsRow s root (advance s axis (env.find .standard s o axis test []) a).nodes.items := by
  have hforward := Axis.isForward_of_isLevel haxis
  have hfollowing : axis ≠ .following := by rintro rfl; cases haxis
  obtain ⟨n, hdepth⟩ := hps.depth
  obtain ⟨hsorted, hleads⟩ := isSorted_advance hacyclic hforward (absurd · hfollowing)
    (fun _ => hps.stop) hps.toIsSorted
    (hps.partsBefore.imp_of_mem fun {p p'} hp hp' hparts => Axis.leads_row haxis
      (hps.addressed p hp) (hps.addressed p' hp') (hps.stop p hp) (hps.stop p' hp')
      ((hdepth p hp).trans (hdepth p' hp').symm) hparts) ha h
  have hstop : ∀ q ∈ (advance s axis (env.find .standard s o axis test []) a).nodes.items,
      q.IsStop ∧ slotDepth q.nodes = n + if axis = .child then 1 else 0 := by
    intro q hq
    obtain ⟨p, hp, hms⟩ := hleads q hq
    exact hdepth p hp ▸ stop_of_leads haxis (hps.addressed p hp) (hps.stop p hp) hms
  exact { hsorted with
    stop := fun q hq => (hstop q hq).1
    depth := ⟨_, fun q hq => (hstop q hq).2⟩ }

theorem isSorted_advance_descent (hacyclic : s.Acyclic root.value) (haxis : axis.isDescent = true)
    (hps : IsSorted s root ps) (ha : a.nodes = .ofList ps)
    (h : (advance s axis (env.find .standard s o axis test []) a).nodes.failure = none) :
    IsSorted s root (advance s axis (env.find .standard s o axis test []) a).nodes.items := by
  have hforward := Axis.isForward_of_isDescent haxis
  have hfollowing : axis ≠ .following := by rintro rfl; cases haxis
  have hsibling : axis ≠ .followingSibling := by rintro rfl; cases haxis
  exact (isSorted_advance hacyclic hforward (absurd · hfollowing) (absurd · hsibling) hps
    (hps.ordered.imp fun h => Axis.leads_descent haxis h) ha h).1

theorem isSorted_advance_following (hacyclic : s.Acyclic root.value)
    (hflat : s.FlatLists root.value) (hps : IsRow s root ps) (ha : a.nodes = .ofList ps)
    (h : (advance s .following (env.find .standard s o .following test []) a).nodes.failure =
      none) :
    IsSorted s root
      (advance s .following (env.find .standard s o .following test []) a).nodes.items :=
  (isSorted_advance hacyclic rfl (fun _ => hflat) (fun _ => hps.stop) hps.toIsSorted
    (hps.partsBefore.imp fun hparts => .inl ⟨rfl, fun _ hms => ⟨hms.1, hparts.trans hms.2⟩⟩) ha h).1

/-- A walk down from sorted nodes keeps them sorted. -/
theorem isSorted_walk (hacyclic : s.Acyclic root.value)
    (hsteps : ∀ step ∈ steps, step.axis.isDescent = true ∧ step.predicates = [])
    (hps : IsSorted s root ps) (ha : a.nodes = .ofList ps)
    (h : (env.walk .standard steps o s a).nodes.failure = none) :
    IsSorted s root (env.walk .standard steps o s a).nodes.items := by
  induction steps generalizing o a ps with
  | nil => rwa [walk, ha]
  | cons step steps ih =>
    obtain ⟨axis, test, predicates⟩ := step
    obtain ⟨⟨haxis, hnone⟩, hrest⟩ := List.forall_mem_cons.1 hsteps
    obtain rfl : predicates = [] := hnone
    rw [walk_cons] at h ⊢
    have hfailure := failure_of_walk h
    exact ih hrest (isSorted_advance_descent hacyclic haxis hps ha hfailure)
      (Nodes.eq_ofList hfailure) h

/-- **A walk in order keeps a row sorted**: as long as it stays at one depth by the invariant that
its nodes are a row, and then by the weaker one that they are sorted. -/
theorem isSorted_walk_of_inOrder (hacyclic : s.Acyclic root.value)
    (hflat : .following ∈ steps.map Step.axis → s.FlatLists root.value)
    (haxes : Axis.inOrder (steps.map Step.axis) = true)
    (hsteps : ∀ step ∈ steps, step.predicates = []) (hps : IsRow s root ps)
    (ha : a.nodes = .ofList ps) (h : (env.walk .standard steps o s a).nodes.failure = none) :
    IsSorted s root (env.walk .standard steps o s a).nodes.items := by
  induction steps generalizing o a ps with
  | nil =>
    rw [walk, ha]
    exact hps.toIsSorted
  | cons step steps ih =>
    obtain ⟨axis, test, predicates⟩ := step
    obtain ⟨hnone, hrest⟩ := List.forall_mem_cons.1 hsteps
    obtain rfl : predicates = [] := hnone
    rw [walk_cons] at h ⊢
    have hfailure := failure_of_walk h
    have hlist := Nodes.eq_ofList hfailure
    rw [List.map_cons, Step.axis] at hflat haxes
    have hflat' := fun h => hflat (List.mem_cons_of_mem _ h)
    cases haxis : axis.isLevel with
    | true =>
      rw [Axis.inOrder, if_pos haxis] at haxes
      exact ih hflat' haxes hrest (isRow_advance hacyclic haxis hps ha hfailure) hlist h
    | false =>
      rw [Axis.inOrder, if_neg (by simp [haxis]), Bool.and_eq_true, Bool.or_eq_true, beq_iff_eq]
        at haxes
      have hdown : ∀ step ∈ steps, step.axis.isDescent = true ∧ step.predicates = [] :=
        fun step hstep =>
          ⟨List.all_eq_true.1 haxes.2 _ (List.mem_map_of_mem hstep), hrest step hstep⟩
      refine isSorted_walk hacyclic hdown ?_ hlist h
      rcases haxes.1 with hdescent | rfl
      · exact isSorted_advance_descent hacyclic hdescent hps.toIsSorted ha hfailure
      · exact isSorted_advance_following hacyclic (hflat (List.mem_cons_self ..)) hps ha hfailure

/-! ## Absolute paths -/

variable {r : Registry} {focus : Focus}

/-- The answer of a path is what its steps lead to from the nodes that it starts from. -/
theorem result_evaluate_path {start : Start} {t : Store}
    (h : (env.startNodes r start (({ focus with occasion := s.now.part 0 } : Focus).part 0)).result s
      = (.ok a, t)) :
    (env.evaluate r (.path start steps) focus).result s =
      ((env.walk r steps ((s.now.part 0).part 1) t a).all.map .nodes, t) := by
  have hbegin : (env.begin r (.path start steps) focus).result s =
      (.ok (.nodes (env.walk r steps ((s.now.part 0).part 1) t a)), t) := by
    rw [begin, Action.result_bind, Action.result_get]
    dsimp only
    rw [compute, Action.result_bind_ok h, Action.result_bind, Action.result_get]
    rfl
  rw [evaluate, Action.result_bind_ok hbegin, Action.result_read]
  rfl

theorem result_evaluate_root (steps : List Step) (focus : Focus) (s : Store) :
    (env.evaluate r (.path .root steps) focus).result s =
      ((env.walk r steps ((s.now.part 0).part 1) s (.ofList [env.root])).all.map .nodes, s) :=
  result_evaluate_path (by rw [startNodes, Action.result_pure])

theorem isRow_root {p : Pointer} (hp : p.nodes = [root.value.node none]) : IsRow s root [p] where
  addressed := List.forall_mem_singleton.2 ⟨[], hp ▸ .root⟩
  ordered := List.pairwise_singleton ..
  stop := by
    refine List.forall_mem_singleton.2 fun l name index hnode => ?_
    have hnode' := (List.cons.inj ((nodes_eq p).symm.trans hp)).1
    rw [hnode] at hnode'
    cases root <;> simp [Holder.value, Value.node] at hnode'
  depth := ⟨_, List.forall_mem_singleton.2 rfl⟩

/-- Sorted nodes compare as they stand. -/
theorem compare_of_isSorted (hps : IsSorted s root ps) :
    ps.Pairwise fun p q => p.compare s q = .ok .lt := by
  refine hps.ordered.imp_of_mem fun {p q} hp hq hearlier => ?_
  have hp := hps.addressed p hp
  have hq := hps.addressed q hq
  have hroot : p.root = q.root := by
    have hlast := (hp.choose_spec.getLast?).trans (hq.choose_spec.getLast?).symm
    simpa only [getLast?_nodes, Option.some.injEq] using hlast
  rcases hearlier with hparts | hbelow
  · exact compare_of_partsBefore hp.linked hq.linked hroot hparts
  · obtain ⟨hsuffix, hlength⟩ := Store.suffix_of_transGen hbelow
    exact compare_of_suffix hp.linked hq.linked hroot hsuffix fun heq => by simp [heq] at hlength

/-- A map with a map and a list, in each of them a slot of the same name as the list. -/
def cabinet : Store where
  lists := ⟨#[[.map 2, .bool true]]⟩
  maps := ⟨#[.ofList [("a", .map 1), ("b", .list 0)], .ofList [("b", .bool false)],
    .ofList [("b", .null)]]⟩

/-- An environment at the map. -/
def cabinetEnvironment : Environment where
  root := { visit := { node := .map 0 none, occasion := {} } }
  locale := {}
  lenient := false
  own := { scope := 0 }

theorem mem_of_reaches_cabinet {v : Value} (h : cabinet.Reaches (.map 0) v) :
    v ∈ [Value.map 0, .map 1, .list 0, .bool false, .map 2, .bool true, .null] :=
  h.mem (List.mem_cons_self ..) (by decide)

theorem acyclic_cabinet : cabinet.Acyclic (.map 0) := by
  refine Store.acyclic_of_shallow (n := 3) ?_ fun v o hv ho => ?_
  · simp [Store.Shallow, Store.held, cabinet, Store.slots, Pool.get, Table.ofList, Table.insert,
      Table.put, Table.empty, Value.isObject]
  · have hmem := mem_of_reaches_cabinet hv
    simp only [List.mem_cons, List.not_mem_nil, or_false] at hmem
    rcases hmem with rfl | rfl | rfl | rfl | rfl | rfl | rfl <;> cases ho <;>
      simp [Store.Has, cabinet, Pool.size]

theorem flatLists_cabinet : cabinet.FlatLists (.map 0) := by
  intro l v hl hv
  have hmem := mem_of_reaches_cabinet hl
  simp only [List.mem_cons, List.not_mem_nil, or_false, reduceCtorEq, false_or,
    Value.list.injEq] at hmem
  subst hmem
  obtain rfl | rfl : v = .map 2 ∨ v = .bool true := List.mem_pair.1 hv
  · rfl
  · rfl

theorem resolves_cabinet : cabinet.Resolves (.map 0) := by
  intro v hv
  have hmem := mem_of_reaches_cabinet hv
  simp only [List.mem_cons, List.not_mem_nil, or_false] at hmem
  rcases hmem with rfl | rfl | rfl | rfl | rfl | rfl | rfl <;> exact ⟨_, rfl⟩

end Environment

end PathQuery
