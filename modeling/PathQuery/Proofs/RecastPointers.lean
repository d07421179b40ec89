import PathQuery.Proofs.AlikeEvaluation
import PathQuery.Proofs.RecastNodes

/-!
# Pointers in another guise

A pointer that was found below the root of a graph has a counterpart in the other guise of it: the
pointer with the counterparts of its nodes. Whatever is found from it or shown by it has its
counterpart too.

* names: `Pointer.recast`, `Pointer.IsOld`, `Traced`, `Pointer.Recasts`, `Store.RootsMatch`.
* **`mirrors`**: the counterparts are counterparts in every way that an expression can tell.
-/

namespace PathQuery

/-! ## Recasting pointers -/

/-- The visit with a bean in place of a map. -/
def Visit.recast (as : Recasting) (x : Visit) : Visit :=
  { x with node := x.node.recast as, settled := x.settled.map (Value.recast as) }

/-- Nothing about the visit is about a bean that stands for a map. -/
structure Visit.IsOld (as : Recasting) (x : Visit) : Prop where
  node : x.node.IsOld as
  settled : ∀ v ∈ x.settled, v.IsOld as

theorem option_map_injective {α β : Type} {f : α → β} {x y : Option α}
    (hf : ∀ a ∈ x, ∀ b ∈ y, f a = f b → a = b) (h : x.map f = y.map f) : x = y := by
  cases x <;> cases y
  · rfl
  · cases h
  · cases h
  · rw [hf _ rfl _ rfl (Option.some.inj h)]

theorem list_map_injective {α β : Type} {f : α → β} {xs ys : List α}
    (hf : ∀ x ∈ xs, ∀ y ∈ ys, f x = f y → x = y) (h : xs.map f = ys.map f) : xs = ys := by
  induction xs generalizing ys with
  | nil => exact (List.map_eq_nil_iff.1 h.symm).symm
  | cons x xs ih =>
    cases ys with
    | nil => cases h
    | cons y ys =>
      rw [List.map_cons, List.map_cons, List.cons.injEq] at h
      rw [hf x (List.mem_cons_self ..) y (List.mem_cons_self ..) h.1,
        ih (fun x hx y hy => hf x (List.mem_cons_of_mem _ hx) y (List.mem_cons_of_mem _ hy)) h.2]

theorem Visit.recast_injective {as : Recasting} {x y : Visit} (hx : x.IsOld as) (hy : y.IsOld as)
    (h : x.recast as = y.recast as) : x = y := by
  obtain ⟨node, occasion, settled⟩ := x
  obtain ⟨node', occasion', settled'⟩ := y
  simp only [recast, Visit.mk.injEq] at h ⊢
  refine ⟨Node.recast_injective hx.node hy.node h.1, h.2.1, ?_⟩
  exact option_map_injective
    (fun v hv w hw => Value.recast_injective (hx.settled v hv) (hy.settled w hw)) h.2.2

namespace Pointer

variable {as : Recasting} {p q : Pointer}

/-- The pointer with beans in place of maps. -/
def recast (as : Recasting) (p : Pointer) : Pointer :=
  { p with visit := p.visit.recast as, above := p.above.map (Visit.recast as) }

/-- Nothing about the pointer is about a bean that stands for a map. -/
def IsOld (as : Recasting) (p : Pointer) : Prop := ∀ x ∈ p.chain, x.IsOld as

theorem chain_recast (p : Pointer) : (p.recast as).chain = p.chain.map (Visit.recast as) := rfl

theorem nodes_recast (p : Pointer) : (p.recast as).nodes = p.nodes.map (Node.recast as) := by
  simp [nodes, chain_recast, Function.comp_def, Visit.recast]

theorem lineage_recast (p : Pointer) : (p.recast as).lineage = p.lineage.map (Node.recast as) := by
  rw [lineage, nodes_recast, ← List.map_reverse]
  rfl

theorem parent?_recast (p : Pointer) : (p.recast as).parent? = p.parent?.map (recast as) := by
  obtain ⟨visit, above, locale⟩ := p
  cases above <;> rfl

/-- Old pointers are told apart after recasting as before. -/
theorem recast_injective (hp : p.IsOld as) (hq : q.IsOld as) (h : p.recast as = q.recast as) :
    p = q := by
  have hchain : p.chain = q.chain :=
    list_map_injective (fun x hx y hy => Visit.recast_injective (hp x hx) (hq y hy)) <| by
      rw [← chain_recast, ← chain_recast, h]
  have hlocale : p.locale = q.locale := (Pointer.mk.inj h).2.2
  obtain ⟨visit, above, locale⟩ := p
  obtain ⟨visit', above', locale'⟩ := q
  obtain ⟨rfl, rfl⟩ := List.cons.inj hchain
  exact congrArg _ hlocale

end Pointer

/-! ## Chains through a graph -/

section Traced

variable (as : Recasting) (s t : Store) (root : Value)

/-- A chain of visits, the nearest first, that leads through the graph below a root. -/
inductive Traced : List Visit → Prop
  | start {x : Visit} (hnode : x.node.IsStart root) (hold : x.IsOld as) : Traced [x]
  | step {x y : Visit} {above : List Visit} (hnode : x.node.IsStep as s t root) (hold : x.IsOld as)
    (h : Traced (y :: above)) : Traced (x :: y :: above)

variable {as s t root} in
theorem Traced.congr {s' t' : Store} {xs : List Visit} (hs : s.SameGraph s') (ht : t.SameGraph t')
    (h : Traced as s t root xs) : Traced as s' t' root xs := by
  induction h with
  | start hnode hold => exact .start hnode hold
  | step hnode hold _ ih => exact .step (hnode.congr hs ht) hold ih

/-- The first pointer leads through the graph, and the second is its counterpart. -/
def Pointer.Recasts (p q : Pointer) : Prop := Traced as s t root p.chain ∧ q = p.recast as

/-- What pointers have settled about their roots is the same for their counterparts. -/
structure Store.RootsMatch : Prop where
  lookup {p : Pointer} (h : p.IsOld as) :
    t.roots.lookup (p.recast as) = (s.roots.lookup p).map (Value.recast as)
  isOld {p : Pointer} {v : Value} (h : s.roots.lookup p = some v) : v.IsOld as

end Traced

variable {as : Recasting} {s t : Store} {root : Value}

namespace Traced

variable {x : Visit} {xs : List Visit}

theorem head (h : Traced as s t root (x :: xs)) : x.node.IsTraced as s t root := by
  cases h with
  | start hnode => exact .inl hnode
  | step hnode => exact .inr hnode

theorem tail {y : Visit} (h : Traced as s t root (x :: y :: xs)) :
    Traced as s t root (y :: xs) := by
  cases h with
  | step _ _ h => exact h

theorem isOld (h : Traced as s t root xs) : ∀ x ∈ xs, x.IsOld as := by
  induction h with
  | start _ hold => exact List.forall_mem_singleton.2 hold
  | step _ hold _ ih => exact List.forall_mem_cons.2 ⟨hold, ih⟩

theorem isTraced (h : Traced as s t root xs) : ∀ x ∈ xs, x.node.IsTraced as s t root := by
  induction h with
  | start hnode => exact List.forall_mem_singleton.2 (.inl hnode)
  | step hnode _ _ ih => exact List.forall_mem_cons.2 ⟨.inr hnode, ih⟩

theorem isStart_getLast (h : Traced as s t root xs) (hne : xs ≠ []) :
    (xs.getLast hne).node.IsStart root := by
  induction h with
  | start hnode => exact hnode
  | step _ _ _ ih => exact ih (List.cons_ne_nil _ _)

end Traced

namespace Pointer.Recasts

variable {p q p' q' : Pointer}

theorem isTraced (h : p.Recasts as s t root q) : p.node.IsTraced as s t root := h.1.head

theorem isOld (h : p.Recasts as s t root q) : p.IsOld as := h.1.isOld

theorem isPlain (h : p.Recasts as s t root q) : p.node.IsPlain := h.isTraced.isPlain

theorem isPlain_right (h : p.Recasts as s t root q) : q.node.IsPlain := by
  rw [h.2]
  exact Node.isPlain_recast h.isPlain

theorem node_eq (h : p.Recasts as s t root q) : q.node = p.node.recast as := by
  rw [h.2]
  rfl

theorem child (h : p.Recasts as s t root q) {node : Node} (hnode : node.IsStep as s t root)
    (hold : node.IsOld as) (o : Occasion) :
    (p.child o node).Recasts as s t root (q.child o (node.recast as)) :=
  ⟨.step hnode ⟨hold, by rintro _ ⟨⟩⟩ h.1, by rw [h.2]; rfl⟩

/-! ### The same in every way that can be told -/

theorem parent? (h : p.Recasts as s t root q) :
    Option.Rel (Pointer.Recasts as s t root) p.parent? q.parent? := by
  obtain ⟨htraced, rfl⟩ := h
  obtain ⟨visit, above, locale⟩ := p
  cases above with
  | nil => exact .none
  | cons x above => exact .some ⟨htraced.tail, rfl⟩

theorem isOld_parent? (h : p.Recasts as s t root q) (hp : p.parent? = some p') : p'.IsOld as := by
  have hparent := h.parent?
  rw [hp] at hparent
  generalize q.parent? = x at hparent
  cases hparent with
  | some h => exact h.isOld

/-- Nodes of a graph are no markup, and bind no namespaces. -/
theorem nearest_eq_none (h : p.Recasts as s t root q) {α : Type} (u : Store)
    (own : Element → Option α) :
    Pointer.nearest u own p.nodes = none ∧ Pointer.nearest u own q.nodes = none := by
  have hnone {p : Pointer} (hp : p.node.IsPlain) : Pointer.nearest u own p.nodes = none := by
    rw [nodes_eq]
    cases hn : p.node <;> first | rfl | (rw [hn] at hp; cases hp)
  exact ⟨hnone h.isPlain, hnone h.isPlain_right⟩

theorem root_recast (p : Pointer) : (p.recast as).root = p.root.recast as := by
  simp only [root, chain_recast, List.getLast_map]
  rfl

theorem isStart (h : p.Recasts as s t root q) : p.root.IsStart root := h.1.isStart_getLast _

theorem isStart_of_above (h : p.Recasts as s t root q) (habove : p.above = []) :
    p.node.IsStart root := by
  obtain ⟨visit, above, locale⟩ := p
  subst habove
  exact h.isStart

variable (g : Store.Guise as s t root)

include g

theorem path_eq (h : p.Recasts as s t root q) : q.path t = p.path s := by
  have hnodes : ∀ n ∈ p.nodes, n.IsTraced as s t root := by
    intro n hn
    obtain ⟨x, hx, rfl⟩ := List.mem_map.1 hn
    exact h.1.isTraced x hx
  rw [path, path, h.2, nodes_recast]
  generalize p.nodes = ns at hnodes
  induction ns with
  | nil => rfl
  | cons n ns ih =>
    rw [List.map_cons, List.foldr_cons, List.foldr_cons,
      ih fun n hn => hnodes n (List.mem_cons_of_mem _ hn),
      (hnodes n (List.mem_cons_self ..)).pathBelow_recast g]

theorem rootPath_eq (h : p.Recasts as s t root q) : q.rootPath t = p.rootPath s := by
  have hstart : p.root.IsTraced as s t root := .inl h.isStart
  rw [rootPath, rootPath, h.2, root_recast, hstart.pathBelow_recast g]

omit g in
theorem passes_eq (h : p.Recasts as s t root q) (test : NodeTest) :
    q.passes t test = p.passes s test := by
  cases test with
  | name test =>
    have huri : p.uri? s = fun _ => none := funext fun _ => (h.nearest_eq_none s _).1
    have huri' : q.uri? t = fun _ => none := funext fun _ => (h.nearest_eq_none t _).2
    have hdefault : p.defaultUri? s = none := (h.nearest_eq_none s _).1
    have hdefault' : q.defaultUri? t = none := (h.nearest_eq_none t _).2
    simp only [passes, sameNamespace, huri, huri', hdefault, hdefault', h.node_eq,
      Node.name?_recast, Node.isContainer_recast]
  | type kind => cases kind <;> simp only [passes, h.node_eq, Node.isContainer_recast]
  | target => rfl

omit g in
theorem ownUri?_eq (h : p.Recasts as s t root q) : q.ownUri? t = p.ownUri? s := by
  have hnone {u : Store} {p : Pointer} (hp : p.node.IsPlain) : p.ownUri? u = none := by
    rw [ownUri?]
    cases hn : p.node <;> first | rfl | (rw [hn] at hp; cases hp)
  rw [hnone h.isPlain, hnone h.isPlain_right]

theorem same_base_eq {n m : Node} (hn : n.IsStart root) (hm : m.IsStart root) :
    ((n.recast as).base t).same ((m.recast as).base t) = (n.base s).same (m.base s) := by
  have hn' := hn.base_recast g
  have hm' := hm.base_recast g
  rw [hn'.2, hm'.2, Value.same_recast (hn'.1.isOld g) (hm'.1.isOld g)]

theorem sameRoot_eq (h : p.Recasts as s t root q) (h' : p'.Recasts as s t root q') :
    q.sameRoot t q' = p.sameRoot s p' := by
  rw [sameRoot, sameRoot, origin, origin, h.2, h'.2, root_recast, root_recast,
    same_base_eq g h.isStart h'.isStart]
  rfl

theorem samePosition_eq (h : p.Recasts as s t root q) (h' : p'.Recasts as s t root q') :
    q.samePosition t q' = p.samePosition s p' := by
  rw [samePosition, samePosition, h.node_eq, h'.node_eq, h.isTraced.alike_recast h'.isTraced]
  congr 1
  have habove : q.above = p.above.map (Visit.recast as) := by
    rw [h.2]
    rfl
  have habove' : q'.above = p'.above.map (Visit.recast as) := by
    rw [h'.2]
    rfl
  rw [habove, habove']
  cases hx : p.above with
  | nil =>
    cases hx' : p'.above with
    | nil =>
      have hbase := same_base_eq g (h.isStart_of_above hx) (h'.isStart_of_above hx')
      rw [← h.node_eq, ← h'.node_eq] at hbase
      exact hbase
    | cons => rfl
  | cons =>
    cases p'.above with
    | nil => rfl
    | cons => rfl

omit g in
theorem sameParent_eq (h : p.Recasts as s t root q) (h' : p'.Recasts as s t root q') :
    q.sameParent q' = p.sameParent p' := by
  rw [sameParent, sameParent, h.2, h'.2, parent?_recast, parent?_recast, Option.isSome_map]
  congr 1
  rw [Bool.eq_iff_iff, beq_iff_eq, beq_iff_eq]
  exact ⟨option_map_injective fun x hx y hy =>
    recast_injective (h.isOld_parent? hx) (h'.isOld_parent? hy), congrArg _⟩

theorem compareChains_eq {ns ms : List Node} (hn : ∀ n ∈ ns, n.IsTraced as s t root)
    (hm : ∀ m ∈ ms, m.IsTraced as s t root) :
    Node.compareChains t (ns.map (Node.recast as)) (ms.map (Node.recast as)) =
      Node.compareChains s ns ms := by
  induction ns generalizing ms with
  | nil => cases ms <;> rfl
  | cons n ns ih =>
    cases ms with
    | nil => rfl
    | cons m ms =>
      obtain ⟨hn, hns⟩ := List.forall_mem_cons.1 hn
      obtain ⟨hm, hms⟩ := List.forall_mem_cons.1 hm
      rw [List.map_cons, List.map_cons, Node.compareChains, Node.compareChains,
        hn.alike_recast hm, hn.compareSiblings_recast g hm, ih hns hms]

theorem order_eq (h : p.Recasts as s t root q) (h' : p'.Recasts as s t root q') :
    q.order t q' = p.order s p' := by
  have hlineage {p q : Pointer} (h : p.Recasts as s t root q) :
      ∀ n ∈ p.lineage, n.IsTraced as s t root := by
    intro n hn
    obtain ⟨x, hx, rfl⟩ := List.mem_map.1 (List.mem_reverse.1 hn)
    exact h.1.isTraced x hx
  have hp := hlineage h
  have hp' := hlineage h'
  rw [order, order, h.sameParent_eq h', h.node_eq, h'.node_eq,
    h.isTraced.compareSiblings_recast g h'.isTraced, h.2, h'.2, lineage_recast, lineage_recast]
  split
  · rfl
  · generalize p.lineage = ns at hp
    generalize p'.lineage = ms at hp'
    cases ns with
    | nil => rfl
    | cons n ns =>
      cases ms with
      | nil => rfl
      | cons m ms =>
        obtain ⟨hn, hns⟩ := List.forall_mem_cons.1 hp
        obtain ⟨hm, hms⟩ := List.forall_mem_cons.1 hp'
        simp only [List.map_cons, hn.alike_recast hm, Node.index_recast, compareChains_eq g hns hms]

/-! ### Counterparts of what is found -/

omit g in
theorem isTraced_atIndex? {n m : Node} {i : Int} (hm : n.atIndex? (.element i) = some m) :
    (n.IsStart root → m.IsStart root) ∧ (n.IsStep as s t root → m.IsStep as s t root) := by
  constructor
  · rintro (h | ⟨h, j⟩ | h)
    · cases root <;> simp only [Value.node, Node.atIndex?, Option.some.injEq, reduceCtorEq] at hm
      subst hm
      exact .item rfl i
    · simp only [Node.atIndex?, Option.some.injEq] at hm
      subst hm
      exact .item h i
    · cases hm
  · rintro (⟨h, name, index, isAttribute⟩ | ⟨h, name, index⟩) <;>
      simp only [Node.atIndex?, Option.some.injEq] at hm <;> subst hm
    · exact .slot h name _ isAttribute
    · exact .items h name _

variable (hr : Store.RootsMatch as s t)

include hr in
omit g in
theorem settledRoot?_eq (h : p.Recasts as s t root q) :
    q.settledRoot? t = (p.settledRoot? s).map (Value.recast as) := by
  rw [settledRoot?, settledRoot?, h.2, hr.lookup h.isOld]
  show (p.visit.settled.map _ <|> _) = _
  cases p.visit.settled <;> rfl

include hr in
theorem atIndex?_alike (h : p.Recasts as s t root q) (i : Int) :
    Option.Rel (Pointer.Recasts as s t root) (p.atIndex? s (.element i))
      (q.atIndex? t (.element i)) := by
  have hsettled := h.settledRoot?_eq hr
  have hold : ∀ v ∈ p.settledRoot? s, v.IsOld as := by
    intro v hv
    rw [settledRoot?, Option.mem_def, Option.orElse_eq_some] at hv
    rcases hv with hv | ⟨-, hv⟩
    · exact (h.isOld p.visit (List.mem_cons_self ..)).settled v hv
    · exact hr.isOld hv
  rw [atIndex?, atIndex?, hsettled, g.now, h.node_eq, Node.atIndex?_recast]
  cases hm : p.node.atIndex? (.element i) with
  | none => exact .none
  | some m =>
    have hm' : (p.node.IsStart root → m.IsStart root) ∧
        (p.node.IsStep as s t root → m.IsStep as s t root) := isTraced_atIndex? hm
    refine .some ⟨?_, by rw [h.2]; rfl⟩
    have htraced := h.1
    obtain ⟨visit, above, locale⟩ := p
    cases htraced with
    | start hnode hx => exact .start (hm'.1 hnode) ⟨Node.IsStart.isOld g (hm'.1 hnode), hold⟩
    | step hnode hx habove =>
      exact .step (hm'.2 hnode) ⟨Node.IsStep.isOld g (hm'.2 hnode), hold⟩ habove

theorem isWholeCollection_eq (h : p.Recasts as s t root q) :
    q.isWholeCollection t = p.isWholeCollection s := by
  rw [isWholeCollection, isWholeCollection, h.node_eq, Node.index_recast,
    h.isTraced.isCollection_recast g]

include hr in
theorem elements_alike (h : p.Recasts as s t root q) :
    List.Forall₂ (Pointer.Recasts as s t root) (p.elements s) (q.elements t) := by
  rw [elements, elements, h.isWholeCollection_eq g, h.node_eq, h.isTraced.length_recast g]
  split
  · exact List.rel_filterMap (R := (· = ·)) (fun i _ hi => hi ▸ h.atIndex?_alike g hr i)
      (List.forall₂_same.2 fun _ _ => rfl)
  · exact .cons h .nil

include hr in
theorem item_alike (h : p.Recasts as s t root q) {l : Nat}
    (hl : Store.Paired as s t root (.list l) (.list l)) (name : Option QName) (i : Nat) :
    (p.item s l name i).Recasts as s t root (q.item t l name i) := by
  have hnested := h.child (.items hl name (.element i)) trivial s.now
  have hatIndex := h.atIndex?_alike g hr i
  simp only [item, h.isWholeCollection_eq g, g.now]
  split
  · generalize p.atIndex? s (.element i) = x at hatIndex
    generalize q.atIndex? t (.element i) = y at hatIndex
    cases hatIndex with
    | none => exact hnested
    | some h => exact h
  · exact hnested

/-- **Counterparts show counterparts**, or fail alike. -/
theorem value_alike (h : p.Recasts as s t root q) :
    Except.Alike (Store.Shows as s t root) (p.value s .standard) (q.value t .standard) := by
  rw [value_eq_shown, value_eq_shown, h.node_eq, h.path_eq g]
  refine (h.isTraced.shown_alike g).bind fun v? w? hv => ?_
  cases hv with
  | none => exact rfl
  | some hv => exact hv

/-! ### Children and attributes -/

theorem slotNodes_recast {k : Holder} {v w : Value} (h : Store.Paired as s t root v w)
    (name : String) :
    t.slotNodes (k.recast as) name w = (s.slotNodes k name v).map (Node.recast as) := by
  have hitems := h.items? g
  rw [Store.slotNodes, Store.slotNodes]
  generalize s.items? v = x at hitems ⊢
  generalize t.items? w = y at hitems ⊢
  cases hitems with
  | none => rfl
  | some hitems => simp only [hitems.length_eq, List.map_map, Function.comp_def, Node.recast]

theorem childNodes_recast {k : Holder}
    (h : Store.Paired as s t root k.value (k.recast as).value) :
    t.childNodes (k.recast as) = (s.childNodes k).map (Node.recast as) :=
  flatMap_eq_of_forall₂ (h.slots g rfl rfl) fun e e' he => by
    show t.slotNodes _ e'.1 e'.2 = _
    rw [he.1]
    exact slotNodes_recast g he.2 e.1

theorem attributeNodes_recast {k : Holder}
    (h : Store.Paired as s t root k.value (k.recast as).value) :
    t.attributeNodes (k.recast as) = (s.attributeNodes k).map (Node.recast as) := by
  rw [Store.attributeNodes, Store.attributeNodes, (h.slots g rfl rfl).keys_eq, List.map_map]
  rfl

/-- What is found below the object in a pointer, if it is made of the slots of the object alike. -/
theorem below_alike (h : p.Recasts as s t root q) {v w : Value}
    (hv : Store.Shows as s t root v w) {nodes nodes' : Holder → List Node}
    (hnodes : ∀ k : Holder, Store.Paired as s t root k.value (k.recast as).value →
      nodes' (k.recast as) = (nodes k).map (Node.recast as))
    (hslots : ∀ k, ∀ n ∈ nodes k, ∃ name index isAttribute, n = .slot k name index isAttribute) :
    List.Forall₂ (Pointer.Recasts as s t root)
      ((v.holder?.map nodes).getD [] |>.map (p.child s.now))
      ((w.holder?.map nodes').getD [] |>.map (q.child t.now)) := by
  rw [hv.eq, Value.holder?_recast, g.now]
  cases hk : v.holder? with
  | none => exact .nil
  | some k =>
    have hpaired : Store.Paired as s t root k.value (k.recast as).value := by
      have hpaired := hv.paired
      rwa [hv.eq, Holder.value_of_holder? hk, Value.recast_value] at hpaired
    simp only [Option.map_some, Option.getD_some, hnodes k hpaired, List.map_map,
      List.forall₂_map_left_iff, List.forall₂_map_right_iff, List.forall₂_same, Function.comp_apply]
    intro n hn
    obtain ⟨name, index, isAttribute, rfl⟩ := hslots k n hn
    exact h.child (.slot hpaired name index isAttribute) (hpaired.isOld g) s.now

theorem attributes_alike (h : p.Recasts as s t root q) :
    Except.Alike (List.Forall₂ (Pointer.Recasts as s t root)) (p.attributes s .standard)
      (q.attributes t .standard) := by
  rw [attributes_eq h.isPlain, attributes_eq h.isPlain_right]
  refine (h.value_alike g).bind fun v w hv => ?_
  refine h.below_alike g hv (fun k hk => attributeNodes_recast g hk) fun k n hn => ?_
  obtain ⟨name, rfl⟩ := Store.mem_attributeNodes hn
  exact ⟨_, _, _, rfl⟩

theorem namespaces_alike (h : p.Recasts as s t root q) :
    Except.Alike (List.Forall₂ (Pointer.Recasts as s t root)) (p.namespaces s .standard)
      (q.namespaces t .standard) := by
  rw [namespaces_eq h.isPlain, namespaces_eq h.isPlain_right]
  exact (h.value_alike g).bind fun _ _ _ => .nil

include hr in
/-- Children are counterparts if those taken from the items of lists are. -/
theorem childrenWith_alike (h : p.Recasts as s t root q)
    {inner inner' : Pointer → Except PathError (List Pointer)}
    (hinner : ∀ p q, p.Recasts as s t root q →
      Except.Alike (List.Forall₂ (Pointer.Recasts as s t root)) (inner p) (inner' q)) :
    Except.Alike (List.Forall₂ (Pointer.Recasts as s t root))
      (p.childrenWith s .standard inner) (q.childrenWith t .standard inner') := by
  rw [childrenWith_eq h.isPlain, childrenWith_eq h.isPlain_right]
  refine (h.value_alike g).bind fun v w hv => ?_
  -- A list has the children of its items, an object those of its slots.
  by_cases hl : ∃ l, v = .list l
  · obtain ⟨l, rfl⟩ := hl
    obtain rfl := hv.eq
    have hlength := (hv.paired.items g rfl rfl).length_eq
    have hname : q.node.name? = p.node.name? := by rw [h.node_eq, Node.name?_recast]
    refine (Except.Alike.mapM ?_ hinner).bind fun _ _ hcs => List.rel_flatten hcs
    rw [hname, ← hlength, List.forall₂_map_left_iff, List.forall₂_map_right_iff, List.forall₂_same]
    exact fun i _ => h.item_alike g hr hv.paired _ i
  · have hbelow := h.below_alike g hv (fun k hk => childNodes_recast g hk) fun k n hn => by
      obtain ⟨name, v, -, hn⟩ := Store.mem_childNodes.1 hn
      obtain ⟨index, rfl⟩ := Store.mem_slotNodes hn
      exact ⟨_, _, _, rfl⟩
    split
    · exact absurd ⟨_, rfl⟩ hl
    · split
      · exact absurd ⟨_, (Value.recast_eq_iff rfl).1 hv.eq.symm⟩ hl
      · exact hbelow

include hr in
/-- **Children of counterparts are counterparts.** -/
theorem children_alike (h : p.Recasts as s t root q) :
    Except.Alike (List.Forall₂ (Pointer.Recasts as s t root)) (p.children s .standard)
      (q.children t .standard) := by
  have hupTo (n : Nat) {p q : Pointer} (h : p.Recasts as s t root q) :
      Except.Alike (List.Forall₂ (Pointer.Recasts as s t root)) (p.childrenUpTo s .standard n)
        (q.childrenUpTo t .standard n) := by
    induction n generalizing p q with
    | zero => exact h.childrenWith_alike g hr fun _ _ _ => .nil
    | succ n ih => exact h.childrenWith_alike g hr fun _ _ h => ih h
  rw [children, children, g.lists_size]
  exact hupTo _ h

/-! ### Descendants -/

omit g in
/-- What a walk goes into is an object. -/
theorem isObject_of_goes_on {v w : Value} (hv : Store.Shows as s t root v w)
    (h : (v.isNull || v.isScalar) = false) : v.isObject = true ∧ w.isObject = true := by
  have hobject : v.isObject = true := by
    cases v <;> first | rfl | exact absurd rfl (hv.ne_foreign _) | cases h
  exact ⟨hobject, by rw [hv.eq, Value.isObject_recast, hobject]⟩

/-- A walk stops at counterparts alike. -/
theorem stops_eq {inside inside' : List Value} {v w : Value} (hv : Store.Shows as s t root v w)
    (hinside : List.Forall₂ (Store.Shows as s t root) inside inside') :
    (w.isNull || w.isScalar || inside'.any (·.same w)) =
      (v.isNull || v.isScalar || inside.any (·.same v)) := by
  have hany : inside'.any (·.same w) = inside.any (·.same v) :=
    forall₂_any hinside fun u u' hu => by
      rw [hu.eq, hv.eq, Value.same_recast (hu.paired.isOld g) (hv.paired.isOld g)]
  rw [hany, hv.eq, Value.isNull_recast, Value.isScalar_recast]

include hr in
/-- Walks down find counterparts, however deep they may go, if they may go deep enough. Induction on
the depth that is left on the one side; that on the other need not be the same. -/
theorem subtreeUpTo_alike {n m : Nat} {inside inside' : List Value}
    {rest rest' : Unit → Search} (h : p.Recasts as s t root q)
    (hn : ∀ v, p.value s .standard = .ok v → s.Shallow n v)
    (hm : ∀ w, q.value t .standard = .ok w → t.Shallow m w)
    (hinside : List.Forall₂ (Store.Shows as s t root) inside inside')
    (hrest : (rest ()).Alike (Pointer.Recasts as s t root) (rest' ())) :
    (p.subtreeUpTo s .standard n inside rest).Alike (Pointer.Recasts as s t root)
      (q.subtreeUpTo t .standard m inside' rest') := by
  induction n using Nat.strong_induction_on generalizing m p q inside inside' rest rest' with
  | _ n ih =>
    have hvalue := h.value_alike g
    cases hp : p.value s .standard with
    | error e =>
      have hq := Except.alike_error_iff.1 (hp ▸ hvalue)
      rw [subtreeUpTo_of_error hp, subtreeUpTo_of_error hq]
      exact .broken e
    | ok v =>
      obtain ⟨w, hq, hv⟩ := Except.alike_ok_iff.1 (hp ▸ hvalue)
      have hstops := stops_eq g hv hinside
      cases hgoes : v.isNull || v.isScalar || inside.any (·.same v) with
      | true =>
        rw [subtreeUpTo_of_stops hp hgoes, subtreeUpTo_of_stops hq (hstops.trans hgoes)]
        exact .found h hrest
      | false =>
        obtain ⟨hobject, hobject'⟩ := isObject_of_goes_on hv (Bool.or_eq_false_iff.1 hgoes).1
        -- No object has depth zero, so there is depth left on both sides.
        obtain ⟨n, rfl⟩ := (hn v hp).exists_succ hobject
        obtain ⟨m, rfl⟩ := (hm w hq).exists_succ hobject'
        rw [subtreeUpTo_of_goes_on hp hgoes, subtreeUpTo_of_goes_on hq (hstops.trans hgoes)]
        refine Search.alike_ofExcept ?_
        have hchildren := h.children_alike g hr
        cases hcs : p.children s .standard with
        | error e =>
          have hds := Except.alike_error_iff.1 (hcs ▸ hchildren)
          rw [hds]
          exact rfl
        | ok cs =>
          obtain ⟨ds, hds, hcd⟩ := Except.alike_ok_iff.1 (hcs ▸ hchildren)
          rw [hds]
          have hsmall := shallow_of_mem_children h.isPlain hp (hn v hp) hcs
          have hsmall' := shallow_of_mem_children h.isPlain_right hq (hm w hq) hds
          refine .found h (Search.alike_each (forall₂_mem hcd
            fun c hc d hd hcd => (⟨hcd, hc, hd⟩ : _ ∧ c ∈ cs ∧ d ∈ ds)) ?_ hrest)
          rintro c d rest rest' ⟨hcd, hc, hd⟩ hrest
          exact ih n (Nat.lt_succ_self n) hcd (fun u hu => hsmall c hc u hcd.isPlain hu)
            (fun u hu => hsmall' d hd u hcd.isPlain_right hu) (.cons hv hinside) hrest

/-- No value is deeper than its store is large. -/
theorem shallow_value (h : p.Recasts as s t root q) :
    (∀ v, p.value s .standard = .ok v → s.Shallow s.objectCount v) ∧
      ∀ w, q.value t .standard = .ok w → t.Shallow t.objectCount w := by
  have hvalue := h.value_alike g
  refine ⟨fun v hv => ?_, fun w hw => ?_⟩
  · obtain ⟨w, -, hshows⟩ := Except.alike_ok_iff.1 (hv ▸ hvalue)
    exact hshows.paired.left.shallow g.acyclic
  · rw [hw] at hvalue
    generalize p.value s .standard = x at hvalue
    cases x with
    | error => exact hvalue.elim
    | ok v => exact Store.Within.shallow g.acyclic_right (Store.Shows.paired hvalue).right

include hr in
/-- **Descendants of counterparts are counterparts.** -/
theorem descendants_alike (h : p.Recasts as s t root q) :
    Except.Alike (Search.Alike (Pointer.Recasts as s t root)) (p.descendants s .standard)
      (q.descendants t .standard) := by
  refine (h.children_alike g hr).bind fun cs ds hcd => (h.value_alike g).bind fun v w hv => ?_
  refine Search.alike_each hcd (fun c d rest rest' hcd hrest => ?_) .ended
  exact hcd.subtreeUpTo_alike g hr (hcd.shallow_value g).1 (hcd.shallow_value g).2 (.cons hv .nil)
    hrest

end Pointer.Recasts

/-! ## Counterparts -/

section Mirrors

open Store (Guise RootsMatch Shows paired_of_not_isObject)

variable (g : Guise as s t root) (hr : RootsMatch as s t)

theorem shows_scalar {v : Value} (h : v.isScalar = true) : Shows as s t root v v := by
  have hobject : v.isObject = false := by cases v <;> first | rfl | cases h
  refine ⟨paired_of_not_isObject hobject, (Value.recast_of_not_isObject hobject).symm, ?_, ?_⟩ <;>
    rintro _ rfl <;> cases h

theorem atom_of_shows {v w : Value} (h : Shows as s t root v w) :
    Shows as s t root (s.atom v) (t.atom w) := by
  have hw : ∀ c, w ≠ .cell c := fun c hc =>
    h.ne_cell c ((Value.recast_eq_iff rfl).1 (h.eq.symm.trans hc))
  rw [Store.atom, Store.atom, Store.unwrapUpTo_of_not_cell h.ne_cell,
    Store.unwrapUpTo_of_not_cell hw]
  cases v with
  | null =>
    rw [h.eq]
    exact shows_scalar rfl
  | map m =>
    have heq := h.eq
    rcases Value.recast_cases as (.map m) with hm | ⟨_, _, -, -, hm⟩ <;> rw [hm] at heq <;>
      subst heq <;> exact h
  | _ =>
    obtain rfl := h.eq
    exact h

include g hr

/-- **The counterparts of pointers are counterparts in every way that an expression can tell.** -/
theorem mirrors :
    Store.Mirrors (Pointer.Recasts as s t root) (Shows as s t root) ⊥ .standard s t where
  name? h := by rw [h.node_eq, Node.name?_recast]
  isAttribute h := by rw [h.node_eq, Node.isAttribute_recast]
  path h := h.path_eq g
  rootPath h := h.rootPath_eq g
  passes h test := h.passes_eq test
  ownUri? h := h.ownUri?_eq
  samePosition h h' := h.samePosition_eq g h'
  sameRoot h h' := h.sameRoot_eq g h'
  order h h' := h.order_eq g h'
  parent? h := h.parent?
  elements h := h.elements_alike g hr
  children h := h.children_alike g hr
  attributes h := h.attributes_alike g
  namespaces h := h.namespaces_alike g
  descendants h := h.descendants_alike g hr
  value h := h.value_alike g
  scalarRoot {v} h locale := by
    have hforeign : ∀ f, v ≠ .foreign f := by rintro f rfl; cases h
    rw [Registry.root, Registry.root, Registry.create_standard s none locale [] hforeign,
      Registry.create_standard t none locale [] hforeign, g.now]
    have hnode : v.node none = .leaf v none := by cases v <;> first | rfl | cases h
    rw [hnode]
    exact ⟨.start (.scalar h) ⟨trivial, by rintro _ ⟨⟩⟩, rfl⟩
  objectRoot h := h.elim
  object h := h.elim
  shown h := h.elim
  ofScalar h := shows_scalar h
  scalar {v w} h hvw := by
    have hv : v.isScalar = true := hvw.elim id fun hw => by rwa [h.eq, Value.isScalar_recast] at hw
    have hobject : v.isObject = false := by cases v <;> first | rfl | cases hv
    rw [h.eq, Value.recast_of_not_isObject hobject]
  atom h := atom_of_shows h
  toBool h := by
    have hpaired := h.paired
    rw [h.eq] at hpaired ⊢
    exact hpaired.toBool_eq g
  toNumber h := h.paired.toNumber_eq g
  toText h := h.paired.toText_eq g

/-- And so they are on every occasion. -/
theorem counterparts :
    Store.Counterparts (Pointer.Recasts as s t root) (Shows as s t root) ⊥ (· = ·) .standard s t where
  now := g.now.symm
  part h k := congrArg (Occasion.part · k) h
  on {o _} ho := by
    subst ho
    have hs := Store.SameGraph.on s o
    have ht := Store.SameGraph.on t o
    have hpointers : Pointer.Recasts as (s.on o) (t.on o) root = Pointer.Recasts as s t root := by
      funext p q
      exact propext ⟨fun h => ⟨h.1.congr hs.symm ht.symm, h.2⟩, fun h => ⟨h.1.congr hs ht, h.2⟩⟩
    have hvalues : Shows as (s.on o) (t.on o) root = Shows as s t root := by
      funext v w
      exact propext ⟨fun h => h.congr hs.symm ht.symm, fun h => h.congr hs ht⟩
    rw [← hpointers, ← hvalues]
    exact mirrors (g.congr hs ht rfl) ⟨hr.lookup, hr.isOld⟩

end Mirrors

end PathQuery
