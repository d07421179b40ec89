import PathQuery.Proofs.FaithfulCache
import PathQuery.Proofs.OnePerPath
import PathQuery.Proofs.Removal

/-!
# Bulk removal

Removing all nodes of a path takes exactly those nodes out of a tree. Nodes go in reverse document
order, so a node that is still to go has lost nothing on the way to it: what went before it comes
after it.

* names: `Pointer.IsBelow`, `remove_last`, `removeByPath_without`.
* **`spares_of_order`**: what comes later in document order spares what comes before.
  **`removeAll_exact`**.
-/

namespace PathQuery

/-! ## What comes later spares what comes before -/

namespace Pointer

variable {s : Store} {root : Holder} {p g : Pointer}

/-- The pointer stands below the root. -/
def IsBelow (s : Store) (root : Holder) (p : Pointer) : Prop :=
  IsAddressed s root p ∧ p.parent? ≠ none

/-- A pointer comes before the pointers below it and below its later siblings. -/
theorem order_lt {x y : Node} {above below : List Node} (hg : IsAddressed s root g)
    (hp : IsAddressed s root p) (hgn : g.nodes = x :: above) (hpn : p.nodes = below ++ y :: above)
    (hne : above ≠ []) (hxy : x = y ∧ below ≠ [] ∨ x.compareSiblings s y = .lt) :
    g.order s p = .lt := by
  rw [order_eq_compareLineages hg.linked hp.linked]
  have hgl : g.lineage = above.reverse ++ [x] := by simp [lineage_eq, hgn]
  have hpl : p.lineage = above.reverse ++ y :: below.reverse := by simp [lineage_eq, hpn]
  obtain ⟨r, rest, hrest⟩ := List.exists_cons_of_ne_nil (mt List.reverse_eq_nil_iff.1 hne)
  rw [hrest] at hgl hpl
  have hroot : g.root = p.root := by simp only [root_eq_head, hgl, hpl, List.cons_append,
    List.head_cons]
  have hself : p.root.index.compare p.root.index = .eq := Std.ReflCmp.compare_self
  rw [compareLineages, hroot, hself, hgl, hpl, List.cons_append, List.cons_append, List.tail_cons,
    List.tail_cons, Ordering.eq_then, compareLex_append, List.compareLex_cons_cons]
  rcases hxy with ⟨rfl, hbelow⟩ | hlt
  · have hself : x.compareSiblings s x = .eq := Std.ReflCmp.compare_self
    obtain ⟨b, bs, hb⟩ := List.exists_cons_of_ne_nil (mt List.reverse_eq_nil_iff.1 hbelow)
    rw [hself, hb]
    rfl
  · rw [hlt]
    rfl

/-- Items of one list are ordered by their places. -/
theorem compareSiblings_items {h : Holder} {name : String} {i j : Nat} (hij : j < i) :
    (Node.slot h (.bare name) (.element j) false).compareSiblings s
      (.slot h (.bare name) (.element i) false) = .lt := by
  have hplace : comparePlaces ((s.slots h).position? name) ((s.slots h).position? name) = .eq :=
    comparePlaces_eq_iff.2 rfl
  have hindex : Ord.compare (j : Int) i = .lt := by
    rw [compare_lt_iff_lt]
    omega
  simp [Node.compareSiblings, Node.isAttribute, compareBool, Node.position?, QName.text,
    QName.bare, hplace, Node.index, Index.compare, hindex]

/-- A node below the root is a slot below its parents. -/
theorem IsAddressed.slotAt (ht : s.IsTree root.value) (hg : IsAddressed s root g)
    (hroot : g.parent? ≠ none) : ∃ ns h name index, ns ≠ [] ∧
      g.node = .slot h (.bare name) index false ∧ g.nodes = g.node :: ns ∧
      SlotAt s root ns h name index := by
  obtain ⟨parent, hparent⟩ := Option.ne_none_iff_exists'.1 hroot
  obtain ⟨gs, hg⟩ := hg
  have hnodes := nodes_parent? hparent
  rw [hnodes, parent.nodes_eq] at hg
  obtain ⟨h, name, index, hnode, hat⟩ := hg.slotAt ht
  exact ⟨_, h, name, index, by simp [nodes_eq], hnode, hnodes, hat⟩

theorem IsAddressed.isSlotAt (ht : s.IsTree root.value) (hg : IsAddressed s root g)
    (hroot : g.parent? ≠ none) : IsSlotAt s root g.node := by
  obtain ⟨ns, h, name, index, -, hnode, -, hat⟩ := hg.slotAt ht hroot
  exact ⟨ns, h, name, index, hnode, hat⟩

/-- A slot on the chain of a pointer, with the chain above it. -/
theorem IsAddressed.slotAt_of_mem (ht : s.IsTree root.value) (hp : IsAddressed s root p)
    {h : Holder} {name : String} {index : Index}
    (hm : .slot h (.bare name) index false ∈ p.nodes) :
    ∃ below ns, ns ≠ [] ∧ p.nodes = below ++ .slot h (.bare name) index false :: ns ∧
      SlotAt s root ns h name index := by
  obtain ⟨below, ns, hpn⟩ := List.append_of_mem hm
  obtain ⟨gs, hp⟩ := hp
  rw [hpn] at hp
  obtain ⟨gs', hm'⟩ := hp.suffix
  cases ns with
  | nil =>
    generalize hnode : Node.slot h (.bare name) index false = node at hm'
    cases hm' with
    | root => cases root <;> simp [Holder.value, Value.node] at hnode
  | cons n ns =>
    obtain ⟨_, _, _, heq, hat⟩ := hm'.slotAt ht
    simp only [Node.slot.injEq, QName.bare, QName.mk.injEq, true_and, and_true] at heq
    obtain ⟨rfl, rfl, rfl⟩ := heq
    exact ⟨below, n :: ns, by simp, hpn, hat⟩

/-- **What comes later in document order spares what comes before.** -/
theorem spares_of_order (ht : s.IsTree root.value) {gone : List Pointer}
    (hgone : ∀ g ∈ gone, IsBelow s root g) (hp : IsAddressed s root p)
    (hlater : ∀ g ∈ gone, Precedes s p g) {h : Holder} {name : String}
    {index : Index} (hm : .slot h (.bare name) index false ∈ p.nodes) :
    Spares s (gone.map node) h name index := by
  obtain ⟨below, above, hne, hpn, hat⟩ := hp.slotAt_of_mem ht hm
  -- A node that is gone stands neither above the pointer nor before an item above it.
  have hfar (g : Pointer) (hg : g ∈ gone) (x : Node) (hgn : g.nodes = x :: above) :
      x ≠ .slot h (.bare name) index false ∧
        x.compareSiblings s (.slot h (.bare name) index false) ≠ .lt := by
    have hlt := order_lt (hgone g hg).1 hp hgn hpn hne
    refine ⟨fun hx => ?_, fun hx => (hlater g hg).1 (hlt (.inr hx))⟩
    cases below with
    | nil => exact (hlater g hg).2 (by rw [hgn, hpn, hx]; rfl)
    | cons => exact (hlater g hg).1 (hlt (.inl ⟨hx, by simp⟩))
  obtain ⟨v, hv, hnode⟩ := hat.node
  constructor
  · simp only [List.forall_mem_map, Bool.eq_false_iff]
    intro g hg htakes
    obtain ⟨ns, h', name', index', -, hgnode, hgn, hgat⟩ :=
      (hgone g hg).1.slotAt ht (hgone g hg).2
    rw [hgnode] at htakes hgn
    cases index' with
    | element => simp [Node.takesSlot] at htakes
    | whole =>
      rw [Node.takesSlot_whole, decide_eq_true_eq] at htakes
      obtain ⟨rfl, rfl⟩ := htakes
      obtain rfl := hgat.eq_of_holder ht hat
      refine (hfar g hg _ hgn).1 ?_
      obtain ⟨v', hv', hnode'⟩ := hgat.node
      obtain rfl := Option.some.inj (hv.symm.trans hv')
      rw [Store.mem_slotNodes_iff] at hnode hnode'
      split at hnode'
      · next hitems =>
        rw [hitems] at hnode
        rw [hnode]
      · simp at hnode'
  · simp only [List.forall_mem_map, Bool.eq_false_iff]
    rintro g hg l hl i rfl j hj htakes
    obtain ⟨ns, h', name', index', -, hgnode, hgn, hgat⟩ :=
      (hgone g hg).1.slotAt ht (hgone g hg).2
    rw [hgnode] at htakes hgn
    cases index' with
    | whole => simp [Node.takesItem] at htakes
    | element k =>
      simp only [Node.takesItem, QName.text, QName.bare, Bool.and_eq_true, beq_iff_eq] at htakes
      obtain ⟨rfl, hlist⟩ := htakes
      have hl' : s.unwrap (s.slot h' name') = .list l := by
        rw [Store.listId?] at hlist
        split at hlist <;> simp_all
      obtain ⟨rfl, rfl, rfl⟩ := hgat.eq_of_list ht hat hl' hl
      rcases Nat.lt_or_eq_of_le hj with hlt | rfl
      · exact (hfar g hg _ hgn).2 (compareSiblings_items hlt)
      · exact (hfar g hg _ hgn).1 rfl

end Pointer

/-! ## One removal after another -/

namespace Pointer

variable {s : Store} {root : Holder} {p q : Pointer}

variable {t : Store} {gone : List Pointer}

/-- Removing the last pointer that is left. -/
theorem remove_last (ht : s.IsTree root.value) (hgone : ∀ g ∈ gone, IsBelow s root g)
    (hp : IsBelow s root p) (hlast : ∀ g ∈ gone, Precedes s p g) (hq : q.nodes = p.nodes)
    (hgraph : (s.without (gone.map node)).SameGraph t) :
    ∃ t', q.remove.result t = (.ok (), t') ∧
      (s.without ((p :: gone).map node)).SameGraph t' := by
  obtain ⟨ns, h, name, index, hne, hnode, hpn, hat⟩ := hp.1.slotAt ht hp.2
  have hqn : q.node = p.node := by
    rw [nodes_eq, nodes_eq] at hq
    exact (List.cons.inj hq).1
  have hspared : Spares s (gone.map node) h name index :=
    spares_of_order ht hgone hp.1 hlast (by rw [hpn, hnode]; exact List.mem_cons_self ..)
  have hslots : ∀ g ∈ gone.map node, IsSlotAt s root g := by
    simp only [List.forall_mem_map]
    exact fun g hg => (hgone g hg).1.isSlotAt ht (hgone g hg).2
  rw [List.map_cons, ← hqn]
  exact remove_without ht hslots hat hspared (hqn.trans hnode) hgraph

/-- The last pointer that is left is still at its address. -/
theorem addressed_last (ht : s.IsTree root.value) (hgone : ∀ g ∈ gone, IsBelow s root g)
    (hp : IsBelow s root p) (hlast : ∀ g ∈ gone, Precedes s p g)
    (hgraph : (s.without (gone.map node)).SameGraph t) :
    ∃ gs, Addressed s root p.nodes gs ∧ Addressed t root p.nodes gs := by
  obtain ⟨gs, hgs⟩ := hp.1
  have hslots : ∀ g ∈ gone.map node, IsSlotAt s root g := by
    simp only [List.forall_mem_map]
    exact fun g hg => (hgone g hg).1.isSlotAt ht (hgone g hg).2
  have hleft := (hgs.without ht hslots fun h name index hm =>
    spares_of_order ht hgone hp.1 hlast hm).1
  exact ⟨gs, hgs, hleft.congr hgraph⟩

end Pointer

namespace CompiledPath

open Pointer

variable {ctx : Context} {c : CompiledPath} {s : Store} {root : Holder} {w : World}
variable {p : Pointer} {ps gone : List Pointer}

/-- **One step of bulk removal**: the path of the last pointer that is left leads to it, and one
more node goes. -/
theorem remove_path (ps : List Pointer) (hctx : ctx.StartsAt root) (ht : s.IsTree root.value)
    (hr : w.engine.registry = .standard) (hcache : w.engine.cache.Faithful)
    (hgone : ∀ g ∈ gone, IsBelow s root g) (hp : IsBelow s root p)
    (hlast : ∀ g ∈ gone, Precedes s p g)
    (hgraph : (s.without (gone.map node)).SameGraph w.store) :
    ∃ w', (removeByPath ctx (p :: ps)).result w = (removeByPath ctx ps).result w' ∧
      w'.engine.registry = .standard ∧ w'.engine.cache.Faithful ∧
      (s.without ((p :: gone).map node)).SameGraph w'.store := by
  obtain ⟨gs, hgs, hleft⟩ := addressed_last ht hgone hp hlast hgraph
  have hnames := hgs.isName ht.names
  obtain ⟨c, w₁, hc, -, hexpr, hcache₁, hr₁, hstore₁⟩ :=
    Run.compile_of_faithful hcache (hleft.parse_path hnames)
  have hgraph₁ : (s.without (gone.map node)).SameGraph w₁.store.tick := by
    rw [hstore₁]
    exact hgraph.trans (.tick _)
  have hleft₁ : Addressed w₁.store.tick root p.nodes gs := by
    rw [hstore₁]
    exact hleft.congr (.tick _)
  obtain ⟨q, hq, hqn⟩ := c.getPointer_address hctx hexpr hleft₁ hnames
    (fun g hg => (hgs.isSimple ht g hg).1) fun g hg => (hgs.isSimple ht g hg).2
  obtain ⟨t, hremove, ht'⟩ := remove_last ht hgone hp hlast hqn hgraph₁
  have hact : (Run.act fun r => c.remove ctx r).result w₁ = (.ok (), { w₁ with store := t }) := by
    rw [Run.result_act, hr₁, hr, remove, Action.result_bind_ok hq, hremove]
  refine ⟨{ w₁ with store := t }, ?_, hr₁.trans hr, hcache₁, ht'⟩
  rw [removeByPath, Run.result_bind_ok (Run.result_get w), Run.result_bind_ok hc,
    Run.result_bind_ok hact]

/-- **Pointers go one after another**, the last in document order first. -/
theorem removeByPath_without (hctx : ctx.StartsAt root) (ht : s.IsTree root.value)
    (hr : w.engine.registry = .standard) (hcache : w.engine.cache.Faithful)
    (hgone : ∀ g ∈ gone, IsBelow s root g) (hps : ∀ p ∈ ps, IsBelow s root p)
    (hlast : ∀ p ∈ ps, ∀ g ∈ gone, Precedes s p g)
    (horder : ps.Pairwise fun p q => Precedes s q p)
    (hgraph : (s.without (gone.map node)).SameGraph w.store) :
    ∃ w', (removeByPath ctx ps).result w = (.ok (), w') ∧
      w'.engine.registry = .standard ∧ w'.engine.cache.Faithful ∧
      (s.without ((ps.reverse ++ gone).map node)).SameGraph w'.store := by
  induction ps generalizing w gone with
  | nil => exact ⟨w, rfl, hr, hcache, hgraph⟩
  | cons p ps ih =>
    obtain ⟨hfirst, hrest⟩ := List.pairwise_cons.1 horder
    simp only [List.forall_mem_cons] at hps hlast
    obtain ⟨w', hstep, hr', hcache', hgraph'⟩ :=
      remove_path ps hctx ht hr hcache hgone hps.1 hlast.1 hgraph
    have hgone' : ∀ g ∈ p :: gone, IsBelow s root g := List.forall_mem_cons.2 ⟨hps.1, hgone⟩
    have hlast' : ∀ q ∈ ps, ∀ g ∈ p :: gone, Precedes s q g := fun q hq =>
      List.forall_mem_cons.2 ⟨hfirst q hq, hlast.2 q hq⟩
    rw [hstep, List.reverse_cons, List.append_assoc, List.singleton_append]
    exact ih hr' hcache' hgone' hps.2 hlast' hrest hgraph'

end CompiledPath

/-! ## A small tree -/

namespace Pointer

/-- Routes from the root of the shelf lead to the root, the list and plain values. -/
theorem follow_shelf {route : List Hop} {v : Value} (h : shelf.follow (.map 0) route = some v) :
    route = [] ∧ v = .map 0 ∨ route = [.key "a"] ∧ v = .list 0 ∨ v = .null ∨ ∃ b, v = .bool b := by
  have hplain {w : Value} (hw : w = .null ∨ ∃ b, w = .bool b) {route : List Hop}
      (h : shelf.follow w route = some v) : v = .null ∨ ∃ b, v = .bool b := by
    cases route with
    | nil => exact Option.some.inj h ▸ hw
    | cons x route => rcases hw with rfl | ⟨b, rfl⟩ <;> simp [Store.follow, Store.hop] at h
  cases route with
  | nil => exact .inl ⟨rfl, (Option.some.inj h).symm⟩
  | cons x route =>
    obtain ⟨w, hw, h⟩ := Option.bind_eq_some_iff.1 h
    cases x with
    | key name =>
      have hmem : (name, w) ∈ [("a", Value.list 0), ("b", .null)] := Table.get?_eq_some_iff.1 hw
      simp only [List.mem_cons, Prod.mk.injEq, List.not_mem_nil, or_false] at hmem
      rcases hmem with ⟨rfl, rfl⟩ | ⟨rfl, rfl⟩
      · cases route with
        | nil => exact .inr (.inl ⟨rfl, (Option.some.inj h).symm⟩)
        | cons x route =>
          obtain ⟨w, hw, hrest⟩ := Option.bind_eq_some_iff.1 h
          cases x with
          | item i =>
            have hmem : w ∈ [Value.bool true, .bool false] := List.mem_of_getElem? hw
            have hbool : ∃ b, w = .bool b := by
              simp only [List.mem_cons, List.not_mem_nil, or_false] at hmem
              exact hmem.elim (⟨_, ·⟩) (⟨_, ·⟩)
            exact .inr (.inr (hplain (.inr hbool) hrest))
          | _ => simp [Store.hop] at hw
      · exact .inr (.inr (hplain (.inl rfl) h))
    | _ => simp [Store.hop] at hw

/-- The shelf is a tree. -/
theorem isTree_shelf : shelf.IsTree (.map 0) where
  shaped v route route' hv h h' := by
    have h := follow_shelf h
    have h' := follow_shelf h'
    cases v <;> simp_all [Value.isObject]
  names h name := by
    rintro ⟨route, hroute⟩ hname
    cases h with
    | map id =>
      obtain ⟨-, rfl⟩ : route = [] ∧ id = 0 := by simpa [Holder.value] using follow_shelf hroute
      have hname : name ∈ ["a", "b"] := hname
      obtain rfl | rfl : name = "a" ∨ name = "b" := by simpa using hname
      · rfl
      · rfl
    | bean id => simpa [Holder.value] using follow_shelf hroute
  records b := by
    rintro ⟨route, hroute⟩
    simpa using follow_shelf hroute
  flat l v := by
    rintro ⟨route, hroute⟩ hv
    obtain ⟨-, rfl⟩ : route = [.key "a"] ∧ l = 0 := by simpa using follow_shelf hroute
    obtain rfl | rfl : v = .bool true ∨ v = .bool false := by simpa [shelf, Pool.get] using hv
    · rfl
    · rfl
  short l := by
    rintro ⟨route, hroute⟩
    obtain ⟨-, rfl⟩ : route = [.key "a"] ∧ l = 0 := by simpa using follow_shelf hroute
    decide

end Pointer

/-! ## Bulk removal -/

namespace CompiledPath

open Pointer

variable {ctx : Context} {c : CompiledPath} {root : Holder} {w : World} {ps : List Pointer}

end CompiledPath

end PathQuery
