import PathQuery.Proofs.FlatGraphs

/-!
# An axis finds every chain once

From one pointer of a flat graph an axis finds no chain twice: subtrees of different children
do not meet, and what is beside one level of a chain is in no subtree that is beside another.

* names: `Pointer.Distinct`, `Pointer.Rooted`, `Pointer.Beside`, `Pointer.Branching`.
* **`distinct_along`**: what an axis finds from one pointer. **`ne_of_along`**: what an axis that
  does not overlap finds from two pointers.
* Everything rests on suffixes of chains: two suffixes of one chain that are equally long are equal.
-/

namespace PathQuery

theorem Except.flatten_of_mapM {α β : Type} {f : α → Except PathError (List β)} {as : List α}
    {bss : List (List β)} (h : as.mapM f = .ok bss) :
    bss.flatten = as.flatMap fun a => (f a).toOption.getD [] := by
  rw [Except.mapM_eq_ok_iff] at h
  induction h with
  | nil => rfl
  | cons ha _ ih => simp [ih, ha, Except.toOption]

theorem Nodes.items_flatMap_sublist (a : Nodes) (f : Pointer → Nodes) :
    (a.flatMap f).items.Sublist (a.items.flatMap fun p => (f p).items) := by
  obtain ⟨items, failure⟩ := a
  induction items with
  | nil => exact .slnil
  | cons p items ih =>
    show (f p ++ flatMap ⟨items, failure⟩ f).items.Sublist _
    rw [List.flatMap_cons]
    obtain ⟨found, _ | e⟩ := f p
    · exact ih.append_left found
    · exact List.sublist_append_left ..

namespace Store

variable (s : Store)

theorem nodup_slotNodes (h : Holder) (name : String) (v : Value) :
    (s.slotNodes h name v).Nodup := by
  rw [slotNodes]
  split
  · exact List.nodup_range.map fun i j hij => by simpa using hij
  · exact List.nodup_singleton _

/-- No child of an object is listed twice. -/
theorem nodup_childNodes (h : Holder) : (s.childNodes h).Nodup := by
  rw [childNodes, List.Nodup, List.pairwise_flatMap]
  refine ⟨fun e _ => s.nodup_slotNodes h e.1 e.2, ?_⟩
  have hnames : (s.slots h).entries.Pairwise fun e e' => e.1 ≠ e'.1 :=
    List.pairwise_map.1 (s.slots h).nodup
  refine hnames.imp fun {e e'} hne node hnode node' hnode' heq => ?_
  obtain ⟨index, rfl⟩ := mem_slotNodes hnode
  obtain ⟨index', rfl⟩ := mem_slotNodes hnode'
  simp only [Node.slot.injEq, QName.bare, QName.mk.injEq] at heq
  exact hne (by simpa using heq.2.1)

end Store

theorem Node.alike_refl (n : Node) : n.alike n = true := by simp [Node.alike]

namespace Pointer

variable {s : Store} {root : Holder} {p q : Pointer} {cs ps qs : List Pointer}

/-! ## Distinct pointers -/

/-- No two of the pointers have one chain. -/
def Distinct (ps : List Pointer) : Prop := ps.Pairwise fun p q => p.nodes ≠ q.nodes

theorem Distinct.sublist (h : Distinct qs) (hs : ps.Sublist qs) : Distinct ps :=
  List.Pairwise.sublist hs h

theorem Distinct.reverse (h : Distinct ps) : Distinct ps.reverse :=
  List.pairwise_reverse.2 (h.imp Ne.symm)

theorem distinct_singleton (p : Pointer) : Distinct [p] := List.pairwise_singleton ..

/-- Two suffixes of one chain that are equally long are equal. -/
theorem suffix_unique {ms ns ks : List Node} (hm : ms <:+ ks) (hn : ns <:+ ks)
    (h : ms.length = ns.length) : ms = ns :=
  (List.suffix_of_suffix_length_le hm hn h.le).eq_of_length h

/-- What is found below distinct pointers of one depth is distinct. -/
theorem distinct_flatMap {g : Pointer → List Pointer} {depth : Nat} (hcs : Distinct cs)
    (hdepth : ∀ c ∈ cs, c.nodes.length = depth) (hg : ∀ c ∈ cs, Distinct (g c))
    (hbelow : ∀ c ∈ cs, ∀ q ∈ g c, c.nodes <:+ q.nodes) : Distinct (cs.flatMap g) := by
  refine List.pairwise_flatMap.2 ⟨hg, hcs.imp_of_mem fun {c c'} hc hc' hne q hq q' hq' heq => ?_⟩
  exact hne (suffix_unique (hbelow c hc q hq) (heq ▸ hbelow c' hc' q' hq')
    ((hdepth c hc).trans (hdepth c' hc').symm))

/-! ## Down -/

/-- The pointers are distinct, and the chain of each leads through the pointer. -/
structure Rooted (p : Pointer) (qs : List Pointer) : Prop where
  distinct : Distinct qs
  suffix {q : Pointer} (hq : q ∈ qs) : p.nodes <:+ q.nodes

/-- The pointers are distinct children of the pointer. -/
structure ChildrenOf (p : Pointer) (cs : List Pointer) : Prop where
  distinct : Distinct cs
  nodes_eq {c : Pointer} (hc : c ∈ cs) : c.nodes = c.node :: p.nodes

theorem childrenOf_children (hflat : s.FlatLists root.value) (hp : IsAddressed s root p)
    (h : p.children s .standard = .ok cs) : ChildrenOf p cs := by
  obtain ⟨v, -, rfl⟩ := children_eq_of_flat hflat hp h
  have hnodup : ((v.holder?.map s.childNodes).getD []).Nodup := by
    cases v.holder? with
    | none => exact List.nodup_nil
    | some h => exact s.nodup_childNodes h
  constructor
  · refine List.pairwise_map.2 (hnodup.imp fun hne heq => hne ?_)
    simpa [nodes, chain, child] using heq
  · intro c hc
    obtain ⟨node, -, rfl⟩ := List.mem_map.1 hc
    rfl

/-- What is found below the children of a pointer is rooted in it, with the pointer or without. -/
theorem ChildrenOf.rooted_flatMap {g : Pointer → List Pointer} (hcs : ChildrenOf p cs)
    (hg : ∀ c ∈ cs, Rooted c (g c)) : Rooted p (p :: cs.flatMap g) := by
  have hlonger : ∀ q ∈ cs.flatMap g, ∃ node, node :: p.nodes <:+ q.nodes := by
    intro q hq
    obtain ⟨c, hc, hq⟩ := List.mem_flatMap.1 hq
    exact ⟨c.node, hcs.nodes_eq hc ▸ (hg c hc).suffix hq⟩
  constructor
  · refine List.pairwise_cons.2 ⟨fun q hq heq => ?_, ?_⟩
    · obtain ⟨node, hsuffix⟩ := hlonger q hq
      have := hsuffix.length_le
      rw [← heq, List.length_cons] at this
      omega
    · have hdepth : ∀ c ∈ cs, c.nodes.length = p.nodes.length + 1 :=
        fun c hc => by rw [hcs.nodes_eq hc, List.length_cons]
      exact distinct_flatMap hcs.distinct hdepth (fun c hc => (hg c hc).distinct)
        fun c hc q hq => (hg c hc).suffix hq
  · intro q hq
    rcases List.mem_cons.1 hq with rfl | hq
    · exact List.suffix_rfl
    · obtain ⟨node, hsuffix⟩ := hlonger q hq
      exact (List.suffix_cons ..).trans hsuffix

theorem Rooted.sublist (h : Rooted p qs) (hs : ps.Sublist qs) : Rooted p ps :=
  ⟨h.distinct.sublist hs, fun hq => h.suffix (hs.mem hq)⟩

theorem Rooted.reverse (h : Rooted p qs) : Rooted p qs.reverse :=
  ⟨h.distinct.reverse, fun hq => h.suffix (List.mem_reverse.1 hq)⟩

theorem rooted_self (p : Pointer) : Rooted p [p] :=
  ⟨distinct_singleton p, fun hq => List.mem_singleton.1 hq ▸ List.suffix_rfl⟩

theorem rooted_nil (p : Pointer) : Rooted p [] := (rooted_self p).sublist (List.nil_sublist _)

/-- **A walk down finds every chain below a pointer once.** -/
theorem rooted_subtreeUpTo (hflat : s.FlatLists root.value) (n : Nat) (inside : List Value)
    (hp : IsAddressed s root p) :
    Rooted p (p.subtreeUpTo s .standard n inside fun _ => .ended).nodes.items := by
  induction n generalizing inside p with
  | zero =>
    unfold subtreeUpTo
    repeat' split
    all_goals simp_all [Nodes.fail, rooted_self, rooted_nil]
  | succ n ih =>
    unfold subtreeUpTo
    split
    · exact rooted_nil p
    · split
      · exact rooted_self p
      · split
        · exact rooted_nil p
        · simp at *
        · next children _ hcs hn =>
          cases hn
          rw [Search.nodes_found, Search.nodes_each (nodes_subtreeUpTo s .standard n _),
            Search.nodes_ended, Nodes.append_nil]
          refine ((childrenOf_children hflat hp hcs).rooted_flatMap fun c hc => ?_).sublist
            ((Nodes.items_flatMap_sublist ..).cons_cons p)
          exact ih _ ((kept_isAddressed s root).child hp hcs hc)

theorem rooted_descendantsOrSelf {a : Search} (hflat : s.FlatLists root.value)
    (hp : IsAddressed s root p) (h : p.descendantsOrSelf s .standard = .ok a) :
    Rooted p a.nodes.items := by
  obtain ⟨below, hbelow, h⟩ := Except.bind_eq_ok_iff.1 h
  obtain rfl := Except.ok.inj h
  obtain ⟨children, hcs, hbelow⟩ := Except.bind_eq_ok_iff.1 hbelow
  obtain ⟨v, -, hbelow⟩ := Except.bind_eq_ok_iff.1 hbelow
  obtain rfl := Except.ok.inj hbelow
  rw [Search.nodes_found, Search.nodes_each (nodes_subtreeUpTo s .standard _ _),
    Search.nodes_ended, Nodes.append_nil]
  refine ((childrenOf_children hflat hp hcs).rooted_flatMap fun c hc => ?_).sublist
    ((Nodes.items_flatMap_sublist ..).cons_cons p)
  exact rooted_subtreeUpTo hflat _ _ ((kept_isAddressed s root).child hp hcs hc)

/-- The nodes below a pointer, with the pointer in front of them. -/
theorem rooted_cons_descendants {a : Search} (hflat : s.FlatLists root.value)
    (hp : IsAddressed s root p) (h : p.descendants s .standard = .ok a) :
    Rooted p (p :: a.nodes.items) := by
  have hself : p.descendantsOrSelf s .standard = .ok (.found p fun _ => a) :=
    Except.bind_eq_ok_iff.2 ⟨a, h, rfl⟩
  simpa using rooted_descendantsOrSelf hflat hp hself

/-! ## Up -/

/-- Recursion along the pointers above a pointer. -/
theorem ancestors_induction {motive : Pointer → Prop}
    (top : ∀ p, p.parent? = none → p.ancestors = [] → motive p)
    (up : ∀ p parent, p.parent? = some parent → p.ancestors = parent :: parent.ancestors →
      motive parent → motive p) (p : Pointer) : motive p := by
  induction hn : p.above.length generalizing p with
  | zero =>
    have hnone : p.parent? = none := by simp [parent?, List.length_eq_zero_iff.1 hn]
    exact top p hnone (ancestors_eq_nil hnone)
  | succ n ih =>
    obtain ⟨v, above, habove⟩ := List.exists_cons_of_length_eq_add_one hn
    have hparent : p.parent? = some { p with visit := v, above } := by simp [parent?, habove]
    exact up p _ hparent (ancestors_eq_cons hparent) (ih _ (by simpa [habove] using hn))

theorem length_of_mem_ancestors (p : Pointer) :
    ∀ q ∈ p.ancestors, q.nodes.length < p.nodes.length := by
  induction p using ancestors_induction with
  | top p _ hnil => simp [hnil]
  | up p parent hparent hcons ih =>
    rw [hcons, nodes_parent? hparent, List.length_cons]
    intro q hq
    rcases List.mem_cons.1 hq with rfl | hq
    · exact Nat.lt_succ_self _
    · exact (ih q hq).trans (Nat.lt_succ_self _)

theorem distinct_ancestors (p : Pointer) : Distinct (p :: p.ancestors) := by
  induction p using ancestors_induction with
  | top p _ hnil => exact hnil ▸ distinct_singleton p
  | up p parent _ hcons ih =>
    refine List.pairwise_cons.2 ⟨fun q hq heq => ?_, hcons ▸ ih⟩
    have := length_of_mem_ancestors p q hq
    rw [heq] at this
    omega

/-! ## Beside -/

/-- The pointers are distinct siblings of the pointer. -/
structure Beside (p : Pointer) (qs : List Pointer) : Prop where
  distinct : Distinct qs
  exists_parent {q : Pointer} (hq : q ∈ qs) :
    ∃ parent, p.parent? = some parent ∧ q.nodes = q.node :: parent.nodes ∧ q.node ≠ p.node

/-- A child that looks like a slot of the same object is that slot. -/
theorem node_eq_of_alike {parent : Pointer} (hflat : s.FlatLists root.value)
    (hp : IsAddressed s root p) (hparent : p.parent? = some parent)
    (hcs : parent.children s .standard = .ok cs) (hq : q ∈ cs)
    (h : q.node.alike p.node = true) : q.node = p.node := by
  have haddress := (kept_isAddressed s root).parent hp hparent
  obtain ⟨v, hv, rfl⟩ := children_eq_of_flat hflat haddress hcs
  obtain ⟨node, hnode, rfl⟩ := List.mem_map.1 hq
  rw [node_child] at h ⊢
  obtain ⟨gs, hp⟩ := hp
  rw [nodes_parent? hparent, nodes_eq parent] at hp
  generalize hn : p.node = n at hp h ⊢
  cases hp with
  | @slot _ _ _ holder name _ index _ hend _ _ =>
    obtain rfl : v = holder.value := Option.some.inj (hv.symm.trans hend)
    simp only [Holder.holder?_value, Option.map_some, Option.getD_some] at hnode
    obtain ⟨name', w, -, hnode⟩ := Store.mem_childNodes.1 hnode
    obtain ⟨index', rfl⟩ := Store.mem_slotNodes hnode
    simp only [Node.alike, Node.index, Node.name?, Bool.and_eq_true, beq_iff_eq,
      Option.some.injEq] at h
    rw [h.2, h.1.1.2]
  | item hn' hend => exact absurd hend (hn'.end?_ne_list hflat _)

theorem beside_siblings {sides : List Pointer × List Pointer} (hflat : s.FlatLists root.value)
    (hp : IsAddressed s root p) (h : p.siblings s .standard = .ok sides) :
    Beside p sides.1 ∧ Beside p sides.2 := by
  have hnone : Beside p [] := ⟨List.Pairwise.nil, by simp⟩
  rw [siblings] at h
  split at h
  · obtain rfl := Except.ok.inj h
    exact ⟨hnone, hnone⟩
  · next parent hparent =>
    split at h
    · obtain rfl := Except.ok.inj h
      exact ⟨hnone, hnone⟩
    · obtain ⟨cs, hcs, h⟩ := Except.bind_eq_ok_iff.1 h
      rw [List.span_eq_takeWhile_dropWhile] at h
      obtain rfl := Except.ok.inj h
      have hchildren := childrenOf_children hflat ((kept_isAddressed s root).parent hp hparent) hcs
      have hbeside {qs : List Pointer} (hsub : qs.Sublist cs) (hne : ∀ q ∈ qs, q.node ≠ p.node) :
          Beside p qs :=
        ⟨hchildren.distinct.sublist hsub,
          fun hq => ⟨parent, hparent, hchildren.nodes_eq (hsub.mem hq), hne _ hq⟩⟩
      -- Among children, to stand at the same position is to look alike.
      have hposition {q : Pointer} (hq : q ∈ cs) : q.samePosition s p = q.node.alike p.node := by
        have hqabove : q.above ≠ [] := fun hnil => by
          have hnodes := hchildren.nodes_eq hq
          simp [nodes_eq, hnil] at hnodes
        have hpabove : p.above ≠ [] := fun hnil => by simp [parent?, hnil] at hparent
        obtain ⟨v, vs, hvs⟩ := List.exists_cons_of_ne_nil hqabove
        obtain ⟨w, ws, hws⟩ := List.exists_cons_of_ne_nil hpabove
        rw [samePosition, hvs, hws, Bool.and_true]
      constructor
      · refine hbeside (List.takeWhile_sublist _) fun q hq heq => ?_
        have htest := List.mem_takeWhile_imp hq
        rw [hposition ((List.takeWhile_sublist _).mem hq), heq, Node.alike_refl] at htest
        simp at htest
      · refine hbeside ((List.drop_sublist ..).trans (List.dropWhile_sublist _)) ?_
        have hdistinct := hchildren.distinct.sublist (List.dropWhile_sublist fun q =>
          !q.samePosition s p)
        cases hrest : cs.dropWhile fun q => !q.samePosition s p with
        | nil => simp
        | cons x rest =>
          rw [hrest] at hdistinct
          have hx : x ∈ cs := (List.dropWhile_sublist _).mem (hrest ▸ List.mem_cons_self ..)
          have htest := List.head_dropWhile_not (fun q => !q.samePosition s p) (l := cs)
            (by simp [hrest])
          simp only [hrest, List.head_cons, Bool.not_eq_false', hposition hx] at htest
          have hxnode := node_eq_of_alike hflat hp hparent hcs hx htest
          intro q hq heq
          have hqcs : q ∈ cs :=
            (List.dropWhile_sublist _).mem (hrest ▸ List.mem_cons_of_mem _ hq)
          refine (List.pairwise_cons.1 hdistinct).1 q hq ?_
          rw [hchildren.nodes_eq hx, hchildren.nodes_eq hqcs, hxnode, heq]

theorem Beside.reverse (h : Beside p qs) : Beside p qs.reverse :=
  ⟨h.distinct.reverse, fun hq => h.exists_parent (List.mem_reverse.1 hq)⟩

/-- The pointers are distinct, and the chain of each branches off right above the pointer. -/
structure Branching (p : Pointer) (qs : List Pointer) : Prop where
  distinct : Distinct qs
  exists_parent {q : Pointer} (hq : q ∈ qs) :
    ∃ parent, p.parent? = some parent ∧ parent.nodes <:+ q.nodes ∧ ¬p.nodes <:+ q.nodes

theorem Branching.not_suffix (h : Branching p qs) (hq : q ∈ qs) : ¬p.nodes <:+ q.nodes := by
  obtain ⟨_, -, -, hnot⟩ := h.exists_parent hq
  exact hnot

/-- What is rooted in siblings of a pointer branches off above it. -/
theorem Beside.branching {f : Pointer → Except PathError (List Pointer)}
    {trees : List (List Pointer)} (hqs : Beside p qs)
    (hf : ∀ q ∈ qs, ∀ tree, f q = .ok tree → Rooted q tree) (h : qs.mapM f = .ok trees) :
    Branching p trees.flatten := by
  have hrooted : ∀ q ∈ qs, Rooted q ((f q).toOption.getD []) := by
    intro q hq
    cases hfq : f q with
    | error e => exact rooted_nil q
    | ok tree => exact hf q hq tree hfq
  rw [Except.flatten_of_mapM h]
  constructor
  · have hdepth : ∀ q ∈ qs, q.nodes.length = p.nodes.length := by
      intro q hq
      obtain ⟨parent, hparent, hnodes, -⟩ := hqs.exists_parent hq
      rw [hnodes, nodes_parent? hparent, List.length_cons, List.length_cons]
    exact distinct_flatMap hqs.distinct hdepth (fun q hq => (hrooted q hq).distinct)
      fun q hq x hx => (hrooted q hq).suffix hx
  · intro x hx
    obtain ⟨q, hq, hx⟩ := List.mem_flatMap.1 hx
    obtain ⟨parent, hparent, hnodes, hne⟩ := hqs.exists_parent hq
    have hsuffix := (hrooted q hq).suffix hx
    refine ⟨parent, hparent, ?_, fun hp => hne ?_⟩
    · rw [hnodes] at hsuffix
      exact (List.suffix_cons ..).trans hsuffix
    · have heq : q.nodes = p.nodes := suffix_unique hsuffix hp (by
        rw [hnodes, nodes_parent? hparent, List.length_cons, List.length_cons])
      rw [hnodes, nodes_parent? hparent] at heq
      exact (List.cons.inj heq).1

/-- **What branches off at the levels of one chain is distinct.** What branches off above a pointer
leads through its parent, and what branches off above the parent does not. -/
theorem branching_levels {f : Pointer → Except PathError (List Pointer)}
    (hf : ∀ {level found}, IsAddressed s root level → f level = .ok found →
      Branching level found) (p : Pointer) :
    ∀ levels, IsAddressed s root p → (p :: p.ancestors).mapM f = .ok levels →
      Distinct levels.flatten ∧ ∀ q ∈ levels.flatten, ¬p.nodes <:+ q.nodes := by
  induction p using ancestors_induction with
  | top p hnone hnil =>
    intro levels hp h
    rw [hnil, Except.mapM_eq_ok_iff] at h
    cases h with
    | @cons _ found _ _ hfound hrest =>
      cases hrest
      rw [List.flatten_cons, List.flatten_nil, List.append_nil]
      have hbranching := hf hp hfound
      exact ⟨hbranching.distinct, fun q hq => hbranching.not_suffix hq⟩
  | up p parent hparent hcons ih =>
    intro levels hp h
    rw [hcons, Except.mapM_eq_ok_iff] at h
    cases h with
    | @cons _ found _ above hfound hrest =>
      have hbranching := hf hp hfound
      obtain ⟨habove, hoff⟩ := ih above ((kept_isAddressed s root).parent hp hparent)
        (Except.mapM_eq_ok_iff.2 hrest)
      rw [List.flatten_cons]
      constructor
      · refine List.pairwise_append.2 ⟨hbranching.distinct, habove, fun q hq q' hq' heq => ?_⟩
        obtain ⟨parent', hparent', hsuffix, -⟩ := hbranching.exists_parent hq
        obtain rfl := Option.some.inj (hparent.symm.trans hparent')
        exact hoff q' hq' (heq ▸ hsuffix)
      · intro q hq hsuffix
        rcases List.mem_append.1 hq with hq | hq
        · exact hbranching.not_suffix hq hsuffix
        · rw [nodes_parent? hparent] at hsuffix
          exact hoff q hq ((List.suffix_cons ..).trans hsuffix)

theorem distinct_following (hflat : s.FlatLists root.value) (hp : IsAddressed s root p)
    (h : p.following s .standard = .ok qs) : Distinct qs := by
  obtain ⟨levels, hlevels, h⟩ := Except.bind_eq_ok_iff.1 h
  obtain rfl := Except.ok.inj h
  refine (branching_levels (fun {level found} hlevel hfound => ?_) p levels hp hlevels).1
  obtain ⟨after, hafter, hfound⟩ := Except.bind_eq_ok_iff.1 hfound
  obtain ⟨trees, htrees, hfound⟩ := Except.bind_eq_ok_iff.1 hfound
  obtain rfl := Except.ok.inj hfound
  have hkept := fun q => (kept_isAddressed s root).followingSiblings (q := q) hlevel hafter
  obtain ⟨sides, hsides, rfl⟩ := Except.map_eq_ok_iff.1 hafter
  refine (beside_siblings hflat hlevel hsides).2.branching (fun q hq tree htree => ?_) htrees
  obtain ⟨below, hbelow, htree⟩ := Except.bind_eq_ok_iff.1 htree
  obtain ⟨all, hall, htree⟩ := Except.bind_eq_ok_iff.1 htree
  obtain rfl := Except.ok.inj htree
  simpa [Search.all_eq_ok_iff.1 hall] using rooted_cons_descendants hflat (hkept q hq) hbelow

theorem distinct_preceding (hflat : s.FlatLists root.value) (hp : IsAddressed s root p)
    (h : p.preceding s .standard = .ok qs) : Distinct qs := by
  obtain ⟨levels, hlevels, h⟩ := Except.bind_eq_ok_iff.1 h
  obtain rfl := Except.ok.inj h
  refine (branching_levels (fun {level found} hlevel hfound => ?_) p levels hp hlevels).1
  obtain ⟨before, hbefore, hfound⟩ := Except.bind_eq_ok_iff.1 hfound
  obtain ⟨trees, htrees, hfound⟩ := Except.bind_eq_ok_iff.1 hfound
  obtain rfl := Except.ok.inj hfound
  have hkept := fun q => (kept_isAddressed s root).precedingSiblings (q := q) hlevel hbefore
  obtain ⟨sides, hsides, rfl⟩ := Except.map_eq_ok_iff.1 hbefore
  have hbeside := (beside_siblings hflat hlevel hsides).1.reverse
  refine hbeside.branching (fun q hq tree htree => ?_) htrees
  obtain ⟨below, hbelow, htree⟩ := Except.bind_eq_ok_iff.1 htree
  obtain ⟨all, hall, htree⟩ := Except.bind_eq_ok_iff.1 htree
  obtain rfl := Except.ok.inj htree
  have hrooted := rooted_descendantsOrSelf hflat (hkept q (List.mem_reverse.1 hq)) hbelow
  rw [Search.all_eq_ok_iff.1 hall] at hrooted
  exact hrooted.reverse

/-! ## All axes -/

/-- **An axis finds no chain twice from one pointer.** -/
theorem distinct_along {axis : Axis} {a : Search} (hflat : s.FlatLists root.value)
    (haxis : axis ≠ .attribute) (hp : IsAddressed s root p)
    (ha : p.along s .standard axis = .ok a) : Distinct a.nodes.items := by
  have hlist {f : Except PathError (List Pointer)} (hf : f.map Search.ofList = .ok a)
      (hdistinct : ∀ qs, f = .ok qs → Distinct qs) : Distinct a.nodes.items := by
    obtain ⟨qs, hqs, rfl⟩ := Except.map_eq_ok_iff.1 hf
    simpa using hdistinct qs hqs
  have hpure {qs : List Pointer}
      (hqs : (Except.ok (Search.ofList qs) : Except PathError Search) = .ok a)
      (hdistinct : Distinct qs) : Distinct a.nodes.items := by
    obtain rfl := Except.ok.inj hqs
    simpa using hdistinct
  cases axis with
  | self =>
    refine hpure ha ?_
    rw [elements, if_neg (by simp [hp.not_isWholeCollection])]
    exact distinct_singleton p
  | child => exact hlist ha fun qs hqs => (childrenOf_children hflat hp hqs).distinct
  | «attribute» => exact absurd rfl haxis
  | «namespace» =>
    refine hlist ha fun qs hqs => ?_
    rw [namespaces_eq hp.isPlain] at hqs
    obtain ⟨_, -, hqs⟩ := Except.bind_eq_ok_iff.1 hqs
    exact Except.ok.inj hqs ▸ List.Pairwise.nil
  | parent =>
    refine hpure ha ?_
    cases p.parent? with
    | none => exact List.Pairwise.nil
    | some parent => exact distinct_singleton parent
  | ancestor => exact hpure ha (distinct_ancestors p).of_cons
  | ancestorOrSelf => exact hpure ha (distinct_ancestors p)
  | descendant => exact (rooted_cons_descendants hflat hp ha).distinct.of_cons
  | descendantOrSelf => exact (rooted_descendantsOrSelf hflat hp ha).distinct
  | followingSibling =>
    refine hlist ha fun qs hqs => ?_
    obtain ⟨sides, hsides, rfl⟩ := Except.map_eq_ok_iff.1 hqs
    exact (beside_siblings hflat hp hsides).2.distinct
  | precedingSibling =>
    obtain ⟨qs, hqs, rfl⟩ := Except.map_eq_ok_iff.1 ha
    obtain ⟨sides, hsides, rfl⟩ := Except.map_eq_ok_iff.1 hqs
    simpa using (beside_siblings hflat hp hsides).1.distinct.reverse
  | following => exact hlist ha fun _ => distinct_following hflat hp
  | preceding => exact hlist ha fun _ => distinct_preceding hflat hp

/-- **An axis that does not overlap finds no chain from two pointers.** -/
theorem ne_of_along {axis : Axis} {p' q' : Pointer} {a a' : Search}
    (hflat : s.FlatLists root.value) (haxis : axis ≠ .attribute) (hoverlaps : axis.overlaps = false)
    (hp : IsAddressed s root p) (hp' : IsAddressed s root p') (hne : p.nodes ≠ p'.nodes)
    (ha : p.along s .standard axis = .ok a) (ha' : p'.along s .standard axis = .ok a')
    (hq : q ∈ a.nodes.items) (hq' : q' ∈ a'.nodes.items) : q.nodes ≠ q'.nodes := by
  -- A pointer that an axis finds this way tells the pointer it was found from.
  have hchild {p q : Pointer} {a : Search} (hp : IsAddressed s root p)
      (ha : p.along s .standard .child = .ok a) (hq : q ∈ a.nodes.items) :
      q.nodes.tail = p.nodes := by
    obtain ⟨qs, hqs, rfl⟩ := Except.map_eq_ok_iff.1 ha
    rw [Search.nodes_ofList] at hq
    rw [(childrenOf_children hflat hp hqs).nodes_eq hq, List.tail_cons]
  have hself {p q : Pointer} {a : Search} (hp : IsAddressed s root p)
      (ha : p.along s .standard .self = .ok a) (hq : q ∈ a.nodes.items) : q = p := by
    obtain rfl := Except.ok.inj ha
    rw [Search.nodes_ofList, elements, if_neg (by simp [hp.not_isWholeCollection])] at hq
    exact List.mem_singleton.1 hq
  cases axis with
  | child => exact fun heq => hne (by rw [← hchild hp ha hq, heq, hchild hp' ha' hq'])
  | self => exact hself hp ha hq ▸ hself hp' ha' hq' ▸ hne
  | «attribute» => exact absurd rfl haxis
  | «namespace» =>
    obtain ⟨qs, hqs, rfl⟩ := Except.map_eq_ok_iff.1 ha
    rw [namespaces_eq hp.isPlain] at hqs
    obtain ⟨_, -, hqs⟩ := Except.bind_eq_ok_iff.1 hqs
    obtain rfl := Except.ok.inj hqs
    simp at hq
  | _ => exact absurd hoverlaps (by decide)

end Pointer

end PathQuery
