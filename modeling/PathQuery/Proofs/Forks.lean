import PathQuery.Proofs.ForwardAxes

/-!
# Where chains fork

Chains that go on from one chain fork at two nodes, and if these look different their order is that
of the pointers. Nothing has to be known of the chain above the fork, so this orders the nodes below
any pointer, the whole of a collection included, whose items stand beside it and not below it.

* names: `Store.Fork`, `Store.ForksBefore`, `Pointer.Before`.
* **`Before.compare`**: a pointer comes before those that fork off after it and those below it.
* **`pairwise_forksBefore`**: children are listed in this order. **`IsChild.before`**: and all of
  them come after their parent.
-/

namespace PathQuery

namespace Store

variable {s : Store} {ks ms ns ms' ns' : List Node} {a b n : Node} {i j : Index}

/-- Below one chain the first node comes before the second, and they look different. Roots are told
apart by their indices alone, so they have to name one value. -/
structure Fork (s : Store) (ks : List Node) (a b : Node) : Prop where
  unlike : a.alike b = false
  before : a.compareSiblings s b = .lt
  root : ks = [] → a.base s = b.base s ∧ a.index.compare b.index = .lt

/-- The chains fork, and the first goes on before the second. -/
def ForksBefore (s : Store) (ms ns : List Node) : Prop :=
  ∃ a b ks, a :: ks <:+ ms ∧ b :: ks <:+ ns ∧ s.Fork ks a b

theorem Fork.forksBefore (h : s.Fork ks a b) : s.ForksBefore (a :: ks) (b :: ks) :=
  ⟨a, b, ks, List.suffix_rfl, List.suffix_rfl, h⟩

/-- No chain forks from itself. -/
theorem not_forksBefore_self (ns : List Node) : ¬s.ForksBefore ns ns := by
  rintro ⟨a, b, ks, ha, hb, hfork⟩
  have hsame := (List.suffix_of_suffix_length_le ha hb (by simp)).eq_of_length (by simp)
  have halike := hfork.unlike
  rw [(List.cons.inj hsame).1, b.alike_refl] at halike
  cases halike

theorem ForksBefore.extend (h : s.ForksBefore ms ns) (hm : ms <:+ ms') (hn : ns <:+ ns') :
    s.ForksBefore ms' ns' := by
  obtain ⟨a, b, ks, ha, hb, hfork⟩ := h
  exact ⟨a, b, ks, ha.trans hm, hb.trans hn, hfork⟩

/-- Chains that differ in their first nodes only fork there. -/
theorem ForksBefore.compareSiblings (h : s.ForksBefore (a :: ks) (b :: ks)) :
    a.compareSiblings s b = .lt := by
  obtain ⟨a', b', ls, ha, hb, hfork⟩ := h
  rcases List.suffix_cons_iff.1 ha with heq | ha' <;>
    rcases List.suffix_cons_iff.1 hb with heq' | hb'
  · rw [← (List.cons.inj heq).1, ← (List.cons.inj heq').1]
    exact hfork.before
  · have := hb'.length_le
    simp [(List.cons.inj heq).2] at this
  · have := ha'.length_le
    simp [(List.cons.inj heq').2] at this
  · exact absurd ⟨a', b', ls, ha', hb', hfork⟩ (not_forksBefore_self ks)

/-- Two indices of one collection. -/
theorem fork_of_atIndex? (ha : n.atIndex? i = some a) (hb : n.atIndex? j = some b)
    (hij : i.compare j = .lt) (ks : List Node) : s.Fork ks a b := by
  have hne : i ≠ j := fun h => by simp [Index.compare_eq_iff.2 h] at hij
  have hplaces (o : Option Nat) : comparePlaces o o = .eq := comparePlaces_eq_iff.2 rfl
  have hattribute (x : Bool) : compareBool x x = .eq := compareBool_eq_iff.2 rfl
  cases n <;> simp only [Node.atIndex?, Option.some.injEq, reduceCtorEq] at ha hb <;> subst ha <;>
    subst hb <;>
    exact ⟨by simp [Node.alike, Node.index, hne],
      by simp [Node.compareSiblings, Node.isAttribute, Node.position?, Node.index, hplaces,
        hattribute, hij],
      fun _ => ⟨rfl, hij⟩⟩

/-- Two slots of one object. -/
theorem pairwise_fork_childNodes (h : Holder) (hks : ks ≠ []) :
    (s.childNodes h).Pairwise (s.Fork ks) := by
  refine (pairwise_childNodes (s := s) h).imp_of_mem fun ha hb hlt => ?_
  exact ⟨Pointer.unlike_of_compareSiblings ha hb hlt, hlt, fun hnil => absurd hnil hks⟩

end Store

theorem Node.alike_comm (a b : Node) : a.alike b = b.alike a := by
  simp only [Node.alike, Bool.beq_comm]

/-- The order of chains is reversed with the chains. -/
theorem Node.compareChains_swap {s : Store} (as bs : List Node) :
    compareChains s bs as = (compareChains s as bs).swap := by
  induction as generalizing bs with
  | nil => cases bs <;> rfl
  | cons a as ih =>
    cases bs with
    | nil => rfl
    | cons b bs =>
      have hlevel : b.compareSiblings s a = (a.compareSiblings s b).swap := Std.OrientedCmp.eq_swap
      rw [compareChains, compareChains, Ordering.swap_then, ih, a.alike_comm]
      split
      · rfl
      · rw [hlevel]

/-- Levels at which chains are the same decide nothing. -/
theorem Node.compareChains_append {s : Store} (ls as bs : List Node) :
    compareChains s (ls ++ as) (ls ++ bs) = compareChains s as bs := by
  induction ls with
  | nil => rfl
  | cons n ls ih =>
    rw [List.cons_append, List.cons_append, compareChains, n.alike_refl, if_pos rfl, ih,
      Ordering.eq_then]

namespace Pointer

variable {s : Store} {p q x : Pointer}

/-! ## The order of pointers -/

/-- The first pointer comes before the second: their chains fork in this order, or the chain of the
second goes on from that of the first. -/
def Before (s : Store) (p q : Pointer) : Prop :=
  s.ForksBefore p.nodes q.nodes ∨ p.nodes <:+ q.nodes ∧ p.nodes ≠ q.nodes

theorem order_swap (p q : Pointer) : q.order s p = (p.order s q).swap := by
  have hparent : q.sameParent p = p.sameParent q := by
    rw [Bool.eq_iff_iff]
    simp only [sameParent, Bool.and_eq_true, beq_iff_eq]
    constructor <;> rintro ⟨h, heq⟩ <;> exact ⟨heq ▸ h, heq.symm⟩
  rw [order, order, hparent]
  split
  · exact Std.OrientedCmp.eq_swap
  · obtain ⟨a, as, hp⟩ := List.exists_cons_of_ne_nil p.lineage_ne_nil
    obtain ⟨b, bs, hq⟩ := List.exists_cons_of_ne_nil q.lineage_ne_nil
    have hlevel : b.index.compare a.index = (a.index.compare b.index).swap :=
      Std.OrientedCmp.eq_swap
    simp only [hp, hq]
    rw [Ordering.swap_then, Node.compareChains_swap, a.alike_comm]
    split
    · rfl
    · rw [hlevel]

theorem getLast?_of_suffix {ks : List Node} (hks : ks ≠ []) (h : ks <:+ p.nodes) :
    ks.getLast? = some p.root := by
  obtain ⟨as, h⟩ := h
  rw [← getLast?_nodes, ← h, List.getLast?_append_of_ne_nil _ hks]

/-- Pointers with one parent differ in their last nodes only. -/
theorem exists_of_sameParent (h : p.sameParent q = true) :
    ∃ ks, p.nodes = p.node :: ks ∧ q.nodes = q.node :: ks := by
  simp only [sameParent, Bool.and_eq_true, beq_iff_eq] at h
  obtain ⟨x, hx⟩ := Option.isSome_iff_exists.1 h.1
  exact ⟨x.nodes, nodes_parent? hx, nodes_parent? (h.2 ▸ hx)⟩

theorem lineage_of_suffix {ks : List Node} (h : ks <:+ p.nodes) :
    ∃ as, p.lineage = ks.reverse ++ as := by
  obtain ⟨as, h⟩ := h
  exact ⟨as.reverse, by rw [lineage_eq, ← h, List.reverse_append]⟩

/-- Chains that fork start from one value. -/
theorem base_of_forksBefore (h : s.ForksBefore p.nodes q.nodes) :
    p.root.base s = q.root.base s := by
  obtain ⟨a, b, ks, ha, hb, hfork⟩ := h
  have hp := getLast?_of_suffix (List.cons_ne_nil a ks) ha
  have hq := getLast?_of_suffix (List.cons_ne_nil b ks) hb
  cases ks with
  | nil =>
    rw [← Option.some.inj hp, ← Option.some.inj hq]
    exact (hfork.root rfl).1
  | cons k ks =>
    rw [List.getLast?_cons_cons] at hp hq
    rw [Option.some.inj (hp.symm.trans hq)]

/-- **Pointers are in the order of the nodes at which their chains fork.** -/
theorem order_of_forksBefore (h : s.ForksBefore p.nodes q.nodes) : p.order s q = .lt := by
  rw [order]
  split
  · next hparent =>
    obtain ⟨js, hp, hq⟩ := exists_of_sameParent hparent
    rw [hp, hq] at h
    exact h.compareSiblings
  · obtain ⟨a, b, ks, ha, hb, hfork⟩ := h
    obtain ⟨as, hp⟩ := lineage_of_suffix ha
    obtain ⟨bs, hq⟩ := lineage_of_suffix hb
    rw [List.reverse_cons, List.append_assoc, List.singleton_append] at hp hq
    rw [hp, hq]
    cases hks : ks.reverse with
    | nil =>
      have hroot := (hfork.root (List.reverse_eq_nil_iff.1 hks)).2
      simp only [List.nil_append, hfork.unlike, Bool.false_eq_true, if_false, hroot,
        Ordering.lt_then]
    | cons k ls =>
      simp only [List.cons_append, k.alike_refl, if_true, Ordering.eq_then,
        Node.compareChains_append, Node.compareChains, hfork.unlike, Bool.false_eq_true, if_false,
        hfork.before, Ordering.lt_then]

/-- A pointer comes before those whose chains go on from its own. -/
theorem order_of_goes_on (h : p.nodes <:+ q.nodes) (hne : p.nodes ≠ q.nodes) :
    p.root.base s = q.root.base s ∧ p.order s q = .lt := by
  have hnil : p.nodes ≠ [] := by simp [nodes_eq]
  have hroot : p.root = q.root := by
    rw [← Option.some_inj, ← getLast?_nodes, getLast?_of_suffix hnil h]
  have hlength : p.nodes.length < q.nodes.length :=
    lt_of_le_of_ne h.length_le fun heq => hne (h.eq_of_length heq)
  refine ⟨by rw [hroot], ?_⟩
  rw [order]
  split
  · next hparent =>
    obtain ⟨js, hp, hq⟩ := exists_of_sameParent hparent
    simp [hp, hq] at hlength
  · obtain ⟨as, hq⟩ := lineage_of_suffix h
    obtain ⟨n, ns, hp⟩ := List.exists_cons_of_ne_nil p.lineage_ne_nil
    obtain ⟨a, as, rfl⟩ : ∃ a as', as = a :: as' := by
      refine List.exists_cons_of_ne_nil ?_
      rintro rfl
      rw [List.append_nil, lineage_eq, List.reverse_inj] at hq
      exact hne hq.symm
    rw [lineage_eq] at hp
    have hafter := Node.compareChains_append (s := s) ns [] (a :: as)
    rw [List.append_nil] at hafter
    rw [hq, lineage_eq, hp]
    simp only [List.cons_append, n.alike_refl, if_true, Ordering.eq_then, hafter,
      Node.compareChains]

theorem Before.ne (h : Before s p q) : p ≠ q := by
  rintro rfl
  exact h.elim (Store.not_forksBefore_self _) fun h => h.2 rfl

theorem Before.order (h : Before s p q) : p.root.base s = q.root.base s ∧ p.order s q = .lt :=
  h.elim (fun h => ⟨base_of_forksBefore h, order_of_forksBefore h⟩) fun h =>
    order_of_goes_on h.1 h.2

theorem Before.compare (h : Before s p q) : p.compare s q = .ok .lt := by
  rw [Pointer.compare, sameRoot, origin, origin, h.order.1, Value.same_refl, if_pos rfl, h.order.2]

/-- The second of two pointers comes after the first. -/
theorem Before.compare_swap (h : Before s p q) : q.compare s p = .ok .gt := by
  rw [Pointer.compare, sameRoot, origin, origin, h.order.1, Value.same_refl, if_pos rfl, order_swap,
    h.order.2]
  rfl

/-- What comes after a pointer comes after it with all that goes on from it. -/
theorem Before.extend (h : Before s p q) (hx : q.nodes <:+ x.nodes) : Before s p x := by
  rcases h with h | ⟨hsuffix, hne⟩
  · exact .inl (h.extend List.suffix_rfl hx)
  · refine .inr ⟨hsuffix.trans hx, fun heq => hne ?_⟩
    exact hsuffix.eq_of_length (le_antisymm hsuffix.length_le (heq ▸ hx.length_le))

/-! ## Children -/

/-- The items of a list, in their order. -/
theorem forksBefore_item (p : Pointer) (l : Nat) (name : Option QName) {i j : Nat} (hij : i < j) :
    s.ForksBefore (p.item s l name i).nodes (p.item s l name j).nodes := by
  have hlt := Store.index_compare_lt hij
  rcases item_cases (s := s) p l name i with ⟨hp, hi⟩ | ⟨hp, -, a, ha, hi, habove, -⟩ <;>
    rcases item_cases (s := s) p l name j with ⟨hp', hj⟩ | ⟨hp', -, b, hb, hj, habove', -⟩
  · rw [hi, hj]
    have hfork : s.Fork p.nodes (.items l name (.element i)) (.items l name (.element j)) :=
      Store.fork_of_atIndex? (n := .items l name .whole) rfl rfl hlt _
    exact hfork.forksBefore
  · simp [hp] at hp'
  · simp [hp] at hp'
  · rw [nodes_eq, nodes_eq (p.item s l name j), hi, hj, habove, habove']
    exact (Store.fork_of_atIndex? ha hb hlt _).forksBefore

theorem isWholeCollection_item (p : Pointer) (l : Nat) (name : Option QName) (i : Nat) :
    (p.item s l name i).isWholeCollection s = false := by
  rcases item_cases (s := s) p l name i with ⟨-, hi⟩ | ⟨-, -, a, ha, hi, -, -⟩
  · rw [hi]
    rfl
  · rw [isWholeCollection, hi]
    cases hp : p.node <;> simp only [hp, Node.atIndex?, Option.some.injEq, reduceCtorEq] at ha <;>
      subst ha <;> rfl

/-- The chain of a child goes on from that of its parent, unless the parent is the whole of a
collection. -/
theorem IsChild.goes_on (h : IsChild s p q) (hp : p.isWholeCollection s = false) :
    p.nodes <:+ q.nodes ∧ p.nodes ≠ q.nodes := by
  induction h with
  | @slot p h node => exact ⟨List.suffix_cons node p.nodes, (List.cons_ne_self node p.nodes).symm⟩
  | @item p q l i _ _ _ ih =>
    obtain ⟨hsuffix, -⟩ := ih (isWholeCollection_item p l _ i)
    have hitem : (p.item s l p.node.name? i).nodes =
        .items l p.node.name? (.element i) :: p.nodes := by
      rw [Pointer.item, if_neg (by simp [hp])]
      rfl
    rw [hitem] at hsuffix
    refine ⟨(List.suffix_cons _ _).trans hsuffix, fun heq => ?_⟩
    have := hsuffix.length_le
    simp [heq] at this

/-- **Children come after their parent.** -/
theorem IsChild.before (h : IsChild s p q) : Before s p q := by
  cases hp : p.isWholeCollection s with
  | false => exact .inr (h.goes_on hp)
  | true =>
    cases h with
    | @slot _ _ node =>
      exact .inr ⟨List.suffix_cons node p.nodes, (List.cons_ne_self node p.nodes).symm⟩
    | @item _ _ l i _ _ hq =>
      obtain ⟨hsuffix, -⟩ := hq.goes_on (isWholeCollection_item p l _ i)
      rcases item_cases (s := s) p l p.node.name? i with
        ⟨hp', -⟩ | ⟨-, hindex, a, ha, hi, habove, -⟩
      · simp [hp] at hp'
      · have hself : p.node.atIndex? .whole = some p.node := by
          cases hn : p.node <;> simp [hn, Node.atIndex?, Node.index] at ha hindex ⊢ <;>
            exact hindex.symm
        have hfork := (Store.fork_of_atIndex? (s := s) hself ha rfl
          (p.above.map Visit.node)).forksBefore
        rw [← nodes_eq, ← habove, ← hi, ← nodes_eq] at hfork
        exact .inl (hfork.extend List.suffix_rfl hsuffix)

theorem pairwise_forksBefore_with {cs : List Pointer}
    {inner : Pointer → Except PathError (List Pointer)} (hp : p.node.IsPlain)
    (hinner : ∀ {q cs}, q.node.IsPlain → inner q = .ok cs →
      cs.Pairwise (fun c c' => s.ForksBefore c.nodes c'.nodes) ∧ ∀ c ∈ cs, IsChild s q c)
    (h : p.childrenWith s .standard inner = .ok cs) :
    cs.Pairwise fun c c' => s.ForksBefore c.nodes c'.nodes := by
  rw [childrenWith_eq hp] at h
  obtain ⟨v, hv, h⟩ := Except.bind_eq_ok_iff.1 h
  have hslots (hcs : (v.holder?.map s.childNodes |>.getD [] |>.map (p.child s.now)) = cs) :
      cs.Pairwise fun c c' => s.ForksBefore c.nodes c'.nodes := by
    subst hcs
    cases v.holder? with
    | none => exact .nil
    | some h =>
      have hnil : p.nodes ≠ [] := by simp [nodes_eq]
      exact List.pairwise_map.2
        ((Store.pairwise_fork_childNodes h hnil).imp Store.Fork.forksBefore)
  cases v with
  | list l =>
    obtain ⟨css, hcss, rfl⟩ := Except.map_eq_ok_iff.1 h
    rw [Except.flatten_of_mapM hcss, List.flatMap_map]
    have hfound (i : Nat) {c : Pointer}
        (hc : c ∈ (inner (p.item s l p.node.name? i)).toOption.getD []) :
        (p.item s l p.node.name? i).nodes <:+ c.nodes := by
      cases hi : inner (p.item s l p.node.name? i) with
      | error e => simp [hi, Except.toOption] at hc
      | ok cs =>
        rw [hi] at hc
        exact (((hinner (isPlain_item p l _ i) hi).2 c hc).goes_on
          (isWholeCollection_item p l _ i)).1
    refine List.pairwise_flatMap.2 ⟨fun i _ => ?_, ?_⟩
    · cases hi : inner (p.item s l p.node.name? i) with
      | error e => exact .nil
      | ok cs => exact (hinner (isPlain_item p l _ i) hi).1
    · exact List.pairwise_lt_range.imp fun {i j} hij c hc c' hc' =>
        (forksBefore_item p l _ hij).extend (hfound i hc) (hfound j hc')
  | _ => exact hslots (Except.ok.inj h)

/-- **Children are listed in their order.** -/
theorem pairwise_forksBefore {cs : List Pointer} (hp : p.node.IsPlain)
    (h : p.children s .standard = .ok cs) :
    cs.Pairwise fun c c' => s.ForksBefore c.nodes c'.nodes := by
  have hupTo {n : Nat} {p : Pointer} {cs : List Pointer} (hp : p.node.IsPlain)
      (h : p.childrenUpTo s .standard n = .ok cs) :
      cs.Pairwise fun c c' => s.ForksBefore c.nodes c'.nodes := by
    induction n generalizing p cs with
    | zero =>
      refine pairwise_forksBefore_with hp (fun _ h => ?_) h
      obtain rfl := Except.ok.inj h
      exact ⟨.nil, List.forall_mem_nil _⟩
    | succ n ih =>
      exact pairwise_forksBefore_with hp
        (fun hq h => ⟨ih hq h, fun c hc => isChild_of_mem_upTo hq h hc⟩) h
  exact hupTo hp h

end Pointer

end PathQuery
