import PathQuery.Proofs.Forks
import PathQuery.Proofs.ForwardWalks
import PathQuery.Proofs.SimplePaths

/-!
# The sides of a node

The siblings before a node and those after it are told apart by a search for the node among the
children of its parent. A path finds slots by their names, and may come to a slot that is not listed
there: then the search finds nothing, and all the children count as siblings before it.

* names: `Node.IsListed`, `Node.NamesSlot`, `Pointer.SoughtAmong`.
* **`mem_childNodes_iff`**: which slots are listed. **`resolve_namesSlot`**: a simple path leads to
  slots that exist or to missing ones.
* **`siblingAxes_of_getPointer`**: on which sides of what a simple path leads to its siblings stand.
-/

namespace PathQuery

/-! ## Slots that are listed -/

namespace Node

variable (s : Store)

/-- The node is a slot as children are: named without a qualifier, an element if it holds a list and
the whole if it does not. Roots, the only other nodes that simple paths lead to, have no siblings to
be listed among. -/
def IsListed : Node → Prop
  | n@(slot _ name index _) => name.qualifier = none ∧ (n.isCollection s = true ↔ index ≠ .whole)
  | _ => True

/-- The node is a slot that its object has, or a missing one. -/
def NamesSlot : Node → Prop
  | slot h name _ _ => (s.slots h).has name.text = true
  | missing .. => True
  | _ => False

variable {s} {n m : Node} {h : Holder}

theorem namesSlot_atIndex? {index : Index} (hn : n.NamesSlot s)
    (hm : n.atIndex? index = some m) : m.NamesSlot s := by
  cases n <;> simp only [atIndex?, Option.some.injEq, reduceCtorEq] at hm <;> subst hm <;> exact hn

theorem namesSlot_congr {t : Store} (ht : s.SameGraph t) : n.NamesSlot t ↔ n.NamesSlot s := by
  cases n <;> simp only [NamesSlot, ht.slots]

/-- What names a slot and exists is a slot. -/
theorem exists_slot (hn : n.NamesSlot s) (hactual : n.isActual s = true) :
    ∃ h name index, n = slot h name index n.isAttribute := by
  cases n with
  | slot h name index => exact ⟨h, name, index, rfl⟩
  | missing => cases hactual
  | _ => exact hn.elim

end Node

namespace Store

variable {s : Store} {h : Holder} {n : Node}

theorem namesSlot_of_mem_childNodes (hn : n ∈ s.childNodes h) : n.NamesSlot s := by
  obtain ⟨name, v, hentry, hnode⟩ := mem_childNodes.1 hn
  obtain ⟨index, rfl⟩ := mem_slotNodes hnode
  exact Table.has_iff_get?.2 ⟨v, Table.get?_eq_some_iff.2 hentry⟩

theorem namesSlot_of_mem_attributeNodes (hn : n ∈ s.attributeNodes h) : n.NamesSlot s := by
  obtain ⟨name, hname, rfl⟩ := List.mem_map.1 hn
  exact Table.has_iff.2 hname

theorem isListed_of_mem_childNodes {name : QName} {index : Index}
    (hn : .slot h name index false ∈ s.childNodes h) :
    (Node.slot h name index false).IsListed s := by
  obtain ⟨key, v, hentry, hnode⟩ := mem_childNodes.1 hn
  obtain ⟨_, hname⟩ := mem_slotNodes hnode
  obtain ⟨-, rfl, rfl, -⟩ := Node.slot.inj hname
  have hbase : (Node.slot h (.bare key) index false).base s = v :=
    slot_eq (Table.get?_eq_some_iff.2 hentry)
  rw [mem_slotNodes_iff] at hnode
  refine ⟨rfl, ?_⟩
  rw [Node.isCollection, hbase]
  split at hnode
  · next hitems => simp [hitems, hnode]
  · next items hitems =>
    obtain ⟨i, -, rfl⟩ := hnode
    simp [hitems]

/-- **The children of an object are the slots that exist and are listed.** -/
theorem mem_childNodes_iff {name : QName} {index : Index}
    (hslot : (Node.slot h name index false).NamesSlot s)
    (hactual : (Node.slot h name index false).isActual s = true) :
    .slot h name index false ∈ s.childNodes h ↔ (Node.slot h name index false).IsListed s := by
  refine ⟨isListed_of_mem_childNodes, ?_⟩
  rintro ⟨hname, hindex⟩
  obtain ⟨key, rfl⟩ : ∃ key, name = .bare key := ⟨name.name, by rw [QName.bare, ← hname]⟩
  obtain ⟨v, hv⟩ := Table.has_iff_get?.1 hslot
  have hbase : (Node.slot h (.bare key) index false).base s = v := slot_eq hv
  rw [Node.isCollection, hbase] at hindex
  refine mem_childNodes.2 ⟨key, v, Table.get?_eq_some_iff.1 hv, mem_slotNodes_iff.2 ?_⟩
  cases hitems : s.items? v with
  | none => simpa [hitems] using hindex
  | some items =>
    obtain ⟨l, hl, rfl⟩ := items?_eq_some_iff.1 hitems
    cases index with
    | whole => simp [hitems] at hindex
    | element i =>
      -- an element that exists stands at a place of the list
      have hlength : (Node.slot h (.bare key) (.element i) false).length s =
          (s.lists.get l).length := by rw [Node.length, hbase, hl]
      have hrange : 0 ≤ i ∧ i < (s.lists.get l).length := by
        simpa [Node.isActual, Node.inRange, Node.index, hlength] using hactual
      exact ⟨i.toNat, by omega, by rw [Int.toNat_of_nonneg hrange.1]⟩

end Store

/-! ## Slots that paths lead to -/

namespace Pointer

variable {s t : Store} {p q : Pointer} {r : Node}

theorem IsChild.namesSlot (h : IsChild s p q) : q.node.NamesSlot s := by
  induction h with
  | slot _ hnode => exact Store.namesSlot_of_mem_childNodes hnode
  | item _ _ _ ih => exact ih

theorem namesSlot_attributes {qs : List Pointer} (hp : p.node.IsPlain)
    (hqs : p.attributes s .standard = .ok qs) (hq : q ∈ qs) : q.node.NamesSlot s := by
  rw [attributes_eq hp] at hqs
  obtain ⟨v, -, hqs⟩ := Except.bind_eq_ok_iff.1 hqs
  obtain rfl := Except.ok.inj hqs
  obtain ⟨node, hnode, rfl⟩ := List.mem_map.1 hq
  cases hv : v.holder? with
  | none => simp [hv] at hnode
  | some h => exact Store.namesSlot_of_mem_attributeNodes (by simpa [hv] using hnode)

theorem namesSlot_slot? {name : QName} {isAttribute : Bool} (hp : p.node.IsPlain)
    (hq : p.slot? s .standard name isAttribute = .ok (some q)) : q.node.NamesSlot s := by
  rw [slot?_eq hp] at hq
  obtain ⟨v, -, hq⟩ := Except.bind_eq_ok_iff.1 hq
  cases hv : v.holder? with
  | none => simp [hv] at hq
  | some h =>
    simp only [hv] at hq
    split at hq
    · next hhas =>
      obtain rfl := Option.some.inj (Except.ok.inj hq)
      exact hhas
    · simp at hq

end Pointer

namespace Environment

open Pointer

variable {s t t' : Store} {p q : Pointer} {r : Node} {env : Environment} {o : Occasion}

theorem namesSlot_firstPassing {name : QName} {isAttribute : Bool} (hp : p.node.IsPlain)
    (hq : firstPassing .standard p name isAttribute s = .ok (some q)) : q.node.NamesSlot s := by
  cases isAttribute with
  | true =>
    obtain ⟨qs, hqs, hq⟩ := Except.bind_eq_ok_iff.1 hq
    exact namesSlot_attributes hp hqs (List.mem_of_find?_eq_some (Except.ok.inj hq))
  | false =>
    obtain ⟨qs, hqs, hq⟩ := Except.bind_eq_ok_iff.1 hq
    exact (isChild_of_mem hp hqs (List.mem_of_find?_eq_some (Except.ok.inj hq))).namesSlot

theorem namesSlot_slotOrMissing {name : QName} {isAttribute : Bool} (hp : p.node.IsPlain)
    (hq : slotOrMissing .standard p name isAttribute s = .ok q) : q.node.NamesSlot s := by
  obtain ⟨slot, hslot, hq⟩ := Except.bind_eq_ok_iff.1 hq
  cases slot with
  | some slot =>
    obtain rfl := Except.ok.inj hq
    exact namesSlot_slot? hp hslot
  | none =>
    obtain ⟨other, hother, hq⟩ := Except.bind_eq_ok_iff.1 hq
    obtain rfl := Except.ok.inj hq
    cases other with
    | some other => exact namesSlot_firstPassing hp hother
    | none => trivial

theorem namesSlot_elementOf {slot : Pointer} {name : QName} {isAttribute : Bool} {i : Int}
    (hslot : slot.node.NamesSlot s) :
    (elementOf p slot name isAttribute i t).node.NamesSlot s := by
  rw [elementOf]
  split
  · next q hq =>
    split at hq
    · obtain ⟨node, hnode, rfl⟩ := Option.map_eq_some_iff.1 hq
      exact Node.namesSlot_atIndex? hslot hnode
    · simp at hq
  · split
    · exact hslot
    · trivial

/-- One step leads to a slot that exists or to a missing one. -/
theorem namesSlot_resolveStep {step : SimpleStep} (hp : p.node.IsPlain) (ht : s.SameGraph t)
    (h : (env.resolveStep .standard o p step).result t = (.ok q, t')) : q.node.NamesSlot s := by
  obtain ⟨slot, hslot, hcases⟩ := resolveStep_cases h
  have hfound := (Node.namesSlot_congr (ht.trans (.on t o))).1 (namesSlot_slotOrMissing hp hslot)
  cases hi : step.index with
  | none =>
    simp only [hi] at hcases
    exact hcases.1 ▸ hfound
  | some e =>
    simp only [hi] at hcases
    rcases hcases.2 with rfl | ⟨i, rfl⟩ | ⟨index, rfl⟩
    · exact hfound
    · exact namesSlot_elementOf hfound
    · trivial

/-- **A simple path leads to slots that exist or to missing ones**, if it takes a step at all. -/
theorem resolve_namesSlot {steps : List SimpleStep} (hr : r.IsPlain) (hp : Linked s r p.nodes)
    (ht : s.SameGraph t)
    (hsteps : ∀ step ∈ steps, ∀ e, step.index = some e → env.LeavesGraph s e)
    (h : (env.resolve .standard o p steps).result t = (.ok q, t')) :
    q = p ∨ q.node.NamesSlot s := by
  induction steps generalizing p o t with
  | nil =>
    simp only [resolve, Action.result_pure, Prod.mk.injEq, Except.ok.injEq] at h
    exact .inl h.1.symm
  | cons step steps ih =>
    rw [resolve, Action.result_bind_eq_ok_iff] at h
    obtain ⟨next, u, hnext, h⟩ := h
    obtain ⟨hlinked, hu⟩ :=
      linked_resolveStep hr hp ht (hsteps step (List.mem_cons_self ..)) hnext
    right
    rcases ih hlinked hu (fun step hs => hsteps step (List.mem_cons_of_mem _ hs)) h with rfl | hq
    · exact namesSlot_resolveStep (hp.isPlain hr) ht hnext
    · exact hq

end Environment

/-! ## The sides of a slot -/

namespace Pointer

variable {s : Store} {p parent : Pointer} {h : Holder} {name : QName} {index : Index}

/-- Children of the parent are compared with a pointer as its siblings. -/
theorem compare_child (hparent : p.parent? = some parent) (node : Node) :
    (parent.child s.now node).compare s p = .ok (node.compareSiblings s p.node) := by
  have hsame : (parent.child s.now node).sameParent p = true := by simp [sameParent, hparent]
  have hroot : p.root = parent.root := by
    rw [← Option.some_inj, ← getLast?_nodes, ← getLast?_nodes, nodes_parent? hparent,
      nodes_eq parent, List.getLast?_cons_cons]
  rw [compare, sameRoot, origin, origin, hroot, root_child, Value.same_refl, if_pos rfl, order,
    if_pos hsame, node_child]

/-- The sibling axes, each going outwards from the node. -/
theorem along_siblings {before after : List Pointer}
    (hp : p.siblings s .standard = .ok (before, after)) :
    p.along s .standard .precedingSibling = .ok (.ofList before.reverse) ∧
      p.along s .standard .followingSibling = .ok (.ofList after) := by
  rw [along, along, precedingSiblings, followingSiblings, hp]
  exact ⟨rfl, rfl⟩

/-- The siblings of a pointer are sought among these: the children of its parent, or nothing for a
root. -/
def SoughtAmong (s : Store) (p : Pointer) (cs : List Pointer) : Prop :=
  match p.parent? with
  | none => cs = []
  | some parent => parent.children s .standard = .ok cs

theorem soughtAmong_iff {cs : List Pointer} (hparent : p.parent? = some parent) :
    SoughtAmong s p cs ↔ parent.children s .standard = .ok cs := by
  rw [SoughtAmong, hparent]

/-- All children of the parent count as siblings before a slot that is not listed. -/
theorem siblings_of_not_mem (hparent : p.parent? = some parent) (hplain : parent.node.IsPlain)
    (hend : parent.node.end? s = some h.value) (hnode : p.node = .slot h name index false)
    (hmem : p.node ∉ s.childNodes h) :
    let cs := (s.childNodes h).map (parent.child s.now)
    p.siblings s .standard = .ok (cs, []) ∧ cs = cs.filter fun q => !q.samePosition s p := by
  have hall : ∀ q ∈ (s.childNodes h).map (parent.child s.now), (!q.samePosition s p) = true := by
    intro q hq
    obtain ⟨node, hchild, rfl⟩ := List.mem_map.1 hq
    rw [samePosition_child hparent, Bool.not_eq_true', Bool.eq_false_iff]
    intro halike
    rw [hnode] at hmem halike
    exact hmem (eq_slot_of_alike hchild halike ▸ hchild)
  refine ⟨?_, (List.filter_eq_self.2 hall).symm⟩
  rw [siblings]
  simp only [hparent, hnode, Node.isAttribute, Bool.false_eq_true, if_false,
    children_of_holder hplain hend, Except.ok_bind, List.span_eq_takeWhile_dropWhile,
    List.takeWhile_eq_self_iff.2 hall, List.dropWhile_eq_nil_iff.2 hall]
  rfl

/-- The siblings of a slot that is listed are the other children, and stand on its sides. -/
theorem siblings_sides_of_mem (hparent : p.parent? = some parent) (hplain : parent.node.IsPlain)
    (hend : parent.node.end? s = some h.value) (hmem : p.node ∈ s.childNodes h) :
    ∃ before after, p.siblings s .standard = .ok (before, after) ∧
      (before ++ after = ((s.childNodes h).map (parent.child s.now)).filter
        fun q => !q.samePosition s p) ∧
      (∀ q ∈ before, q.compare s p = .ok .lt) ∧ ∀ q ∈ after, q.compare s p = .ok .gt := by
  obtain ⟨before, after, hchildren, hsiblings⟩ := siblings_of_mem hparent hplain hend hmem
  have hpairs := (Store.pairwise_childNodes (s := s) h).imp_of_mem fun ha hb hlt =>
    And.intro hlt (unlike_of_compareSiblings ha hb hlt)
  rw [hchildren] at hpairs
  obtain ⟨-, hrest, hbefore⟩ := List.pairwise_append.1 hpairs
  have hbefore (node : Node) (hnode : node ∈ before) :=
    hbefore node hnode p.node (List.mem_cons_self ..)
  have hafter := (List.pairwise_cons.1 hrest).1
  refine ⟨_, _, hsiblings, ?_, ?_, ?_⟩
  · have hself : (!(parent.child s.now p.node).samePosition s p) ≠ true := by
      simp [samePosition_child hparent, Node.alike_refl]
    have hall {nodes : List Node} (hnodes : ∀ node ∈ nodes, node.alike p.node = false) :
        ∀ q ∈ nodes.map (parent.child s.now), (!q.samePosition s p) = true := by
      intro q hq
      obtain ⟨node, hnode, rfl⟩ := List.mem_map.1 hq
      rw [samePosition_child hparent, hnodes node hnode, Bool.not_false]
    rw [hchildren, List.map_append, List.map_cons, List.filter_append, List.filter_cons,
      if_neg hself, List.filter_eq_self.2 (hall fun n hn => (hbefore n hn).2),
      List.filter_eq_self.2 (hall fun n hn => (n.alike_comm p.node).trans (hafter n hn).2)]
  · intro q hq
    obtain ⟨node, hnode, rfl⟩ := List.mem_map.1 hq
    rw [compare_child hparent, (hbefore node hnode).1]
  · intro q hq
    obtain ⟨node, hnode, rfl⟩ := List.mem_map.1 hq
    rw [compare_child hparent, Std.OrientedCmp.gt_of_lt (hafter node hnode).1]

/-- **The siblings after a slot stand after it.** Those before it do so if the slot is listed, and
else only if no child of the parent stands at the slot or after it. -/
theorem siblings_sides (hparent : p.parent? = some parent) (hplain : parent.node.IsPlain)
    (hend : parent.node.end? s = some h.value) (hnode : p.node = .slot h name index false)
    (hslot : p.node.NamesSlot s) (hactual : p.node.isActual s = true) :
    ∃ cs before after, SoughtAmong s p cs ∧ p.siblings s .standard = .ok (before, after) ∧
      (before ++ after = cs.filter fun q => !q.samePosition s p) ∧
      (∀ q ∈ after, q.compare s p = .ok .gt) ∧ before.Disjoint after ∧
      ((∀ q ∈ before, q.compare s p = .ok .lt) ↔
        p.node.IsListed s ∨ ∀ q ∈ cs, q.compare s p = .ok .lt) := by
  have hlisted : p.node ∈ s.childNodes h ↔ p.node.IsListed s := by
    rw [hnode] at hslot hactual ⊢
    exact Store.mem_childNodes_iff hslot hactual
  have hamong := (soughtAmong_iff hparent).2 (children_of_holder hplain hend)
  by_cases hmem : p.node ∈ s.childNodes h
  · obtain ⟨before, after, hsiblings, hall, hlt, hgt⟩ :=
      siblings_sides_of_mem hparent hplain hend hmem
    refine ⟨_, before, after, hamong, hsiblings, hall, hgt, fun q hq hq' => ?_,
      fun _ => .inl (hlisted.1 hmem), fun _ => hlt⟩
    cases (hlt q hq).symm.trans (hgt q hq')
  · obtain ⟨hsiblings, hall⟩ := siblings_of_not_mem hparent hplain hend hnode hmem
    refine ⟨_, _, [], hamong, hsiblings, (List.append_nil _).trans hall, List.forall_mem_nil _,
      List.disjoint_nil_right _, .inr, ?_⟩
    rintro (h | h)
    · exact absurd (hlisted.2 h) hmem
    · exact h

/-- A slot in a graph stands below its object. -/
theorem exists_object {root : Holder} {isAttribute : Bool}
    (hp : Linked s (root.value.node none) p.nodes)
    (hnode : p.node = .slot h name index isAttribute) :
    ∃ parent, p.parent? = some parent ∧ parent.node.IsPlain ∧
      parent.node.end? s = some h.value := by
  rw [nodes_eq, hnode] at hp
  cases habove : p.above with
  | nil =>
    rw [habove] at hp
    cases hp with
    | root hv => cases root <;> simp [Node.IsVariant, Node.atIndex?, Holder.value, Value.node] at hv
  | cons v above =>
    rw [habove, List.map_cons] at hp
    cases hp with
    | link hb hp =>
      exact ⟨{ p with visit := v, above }, by simp [parent?, habove],
        hp.isPlain root.isPlain_node, hb⟩

end Pointer

/-! ## The sides of what a path leads to -/

namespace CompiledPath

open Pointer

variable {ctx : Context} {c : CompiledPath} {root : Holder} {start : Start} {steps : List Step}
variable {isAbsolute : Bool} {slots : List SimpleStep} {s t : Store} {p : Pointer}

/-- What a strict context finds at a simple path is the root of its graph or a slot that exists. -/
theorem getPointer_cases (hctx : ctx.StartsAt root) (hstrict : ctx.env.lenient = false)
    (hc : c.expr.value = .path start steps)
    (hpath : simplePath? start steps = some (isAbsolute, slots))
    (hslots : ∀ step ∈ slots, ∀ e, step.index = some e → ctx.env.LeavesGraph s e)
    (hp : (c.getPointer ctx .standard).result s = (.ok p, t)) :
    p = ctx.env.root ∨ Linked t (root.value.node none) p.nodes ∧ p.node.NamesSlot t ∧
      p.node.isActual t = true := by
  have hfrom : (if isAbsolute then ctx.env.root else ctx.here) = ctx.env.root := by
    rw [hctx.here, ite_self]
  have hstart : Linked s (root.value.node none) ctx.env.root.nodes := by
    rw [nodes_eq, hctx.node, hctx.above]
    exact .root (.inl rfl)
  rw [c.result_getPointer_simple s hstrict hc hpath, hfrom] at hp
  split at hp
  · next q u hq =>
    obtain ⟨hgiven, rfl⟩ := Prod.mk.inj hp
    split at hgiven
    · next hactual =>
      obtain rfl := Except.ok.inj hgiven
      obtain ⟨hlinked, hu⟩ := linked_resolve root.isPlain_node hstart (.refl s) hslots hq
      rcases Environment.resolve_namesSlot root.isPlain_node hstart (.refl s) hslots hq with
        hroot | hslot
      · exact .inl hroot
      · exact .inr ⟨hlinked.congr hu, (Node.namesSlot_congr hu).2 hslot, hactual⟩
    · cases hgiven
  · cases (Prod.mk.inj hp).1

/-- **The siblings that follow what a simple path leads to stand after it**, and none of them
precedes it. Together they are the children of the parent that do not stand at its position. Those
that precede it stand before it if it is listed among the children; if it is not, all the children
precede it, wherever they stand. -/
theorem siblingAxes_of_getPointer (hctx : ctx.StartsAt root) (hstrict : ctx.env.lenient = false)
    (hc : c.expr.value = .path start steps)
    (hpath : simplePath? start steps = some (isAbsolute, slots))
    (hslots : ∀ step ∈ slots, ∀ e, step.index = some e → ctx.env.LeavesGraph s e)
    (hp : (c.getPointer ctx .standard).result s = (.ok p, t))
    (hattribute : p.node.isAttribute = false) :
    ∃ cs before after, SoughtAmong t p cs ∧
      p.along t .standard .precedingSibling = .ok (.ofList before) ∧
      p.along t .standard .followingSibling = .ok (.ofList after) ∧
      (before.reverse ++ after = cs.filter fun q => !q.samePosition t p) ∧
      (∀ q ∈ after, q.compare t p = .ok .gt) ∧ before.Disjoint after ∧
      ((∀ q ∈ before, q.compare t p = .ok .lt) ↔
        p.node.IsListed t ∨ ∀ q ∈ cs, q.compare t p = .ok .lt) := by
  rcases getPointer_cases hctx hstrict hc hpath hslots hp with
    rfl | ⟨hlinked, hslot, hactual⟩
  · have hparent : ctx.env.root.parent? = none := by rw [parent?, hctx.above]
    have hamong : SoughtAmong t ctx.env.root [] := by rw [SoughtAmong, hparent]
    have hsiblings : ctx.env.root.siblings t .standard = .ok ([], []) := by
      rw [siblings, hparent]
      rfl
    obtain ⟨hpreceding, hfollowing⟩ := along_siblings hsiblings
    exact ⟨[], [], [], hamong, hpreceding, hfollowing, rfl, List.forall_mem_nil _,
      List.disjoint_nil_right _, fun h => .inr h, fun _ => List.forall_mem_nil _⟩
  · obtain ⟨h, name, index, hnode⟩ := Node.exists_slot hslot hactual
    rw [hattribute] at hnode
    obtain ⟨parent, hparent, hplain, hend⟩ := exists_object hlinked hnode
    obtain ⟨cs, before, after, hamong, hsiblings, hall, hgt, hdisjoint, hlt⟩ :=
      siblings_sides hparent hplain hend hnode hslot hactual
    obtain ⟨hpreceding, hfollowing⟩ := along_siblings hsiblings
    refine ⟨cs, before.reverse, after, hamong, hpreceding, hfollowing, ?_, hgt, ?_, ?_⟩
    · rw [List.reverse_reverse, hall]
    · simpa [List.Disjoint] using hdisjoint
    · simpa using hlt

/-! ## A list in a slot -/

open Environment (cabinet cabinetEnvironment acyclic_cabinet)

/-- A context at the cabinet. -/
def cabinetContext : Context where
  env := cabinetEnvironment
  here := cabinetEnvironment.root

/-- The path to the slot that holds a list, or to one of its items. -/
def pathToCabinetSlot (source : String) (number : Option Nat) : CompiledPath where
  source
  expr := { id := 0, value := .path .root [NamedStep.step { name := .bare "b", number }] }

/-- The pointer to which the path leads. -/
def cabinetSlot (index : Index) : Pointer :=
  cabinetContext.env.root.child { trail := [0, 0] } (.slot (.map 0) (.bare "b") index false)

theorem simplePath?_cabinetSlot (number : Option Nat) :
    simplePath? .root [NamedStep.step { name := .bare "b", number }] =
      some (true, [NamedStep.simple { name := .bare "b", number }]) := by
  have hname : (QName.bare "b").isWildcard = false := by decide
  rw [simplePath?, List.mapM_cons, NamedStep.simple?_step hname]
  rfl

theorem getPointer_cabinetSlot (source : String) :
    ((pathToCabinetSlot source none).getPointer cabinetContext .standard).result cabinet =
        (.ok (cabinetSlot .whole), cabinet) ∧
      ((pathToCabinetSlot source (some 2)).getPointer cabinetContext .standard).result cabinet =
        (.ok (cabinetSlot (.element 1)), cabinet) := by
  have hslot (o : Occasion) : Environment.slotOrMissing .standard cabinetContext.env.root
      (.bare "b") false (cabinet.on o) =
        .ok (cabinetContext.env.root.child o (.slot (.map 0) (.bare "b") .whole false)) := rfl
  have hplace : NamedStep.place 2 = 1 := NamedStep.place_of_le (by decide)
  constructor <;>
    rw [result_getPointer_simple _ _ rfl rfl (simplePath?_cabinetSlot _)] <;>
    simp only [if_true, Environment.resolve, Action.result_bind, Environment.result_resolveStep,
      hslot, Except.map_ok, Action.result_pure, Environment.moved, hplace] <;>
    rfl

/-- The second item of the list, which is listed: the first item and the map stand before it. -/
theorem siblingAxes_of_item :
    let c := pathToCabinetSlot "/b[2]" (some 2)
    cabinet.Acyclic (.map 0) ∧ cabinetContext.StartsAt (.map 0) ∧
      (c.getPointer cabinetContext .standard).result cabinet =
        (.ok (cabinetSlot (.element 1)), cabinet) ∧
      ∃ cs before after, SoughtAmong cabinet (cabinetSlot (.element 1)) cs ∧
        (cabinetSlot (.element 1)).along cabinet .standard .precedingSibling =
          .ok (.ofList before) ∧
        before.map (·.path cabinet) = ["/b[1]", "/a"] ∧
        (cabinetSlot (.element 1)).along cabinet .standard .followingSibling =
          .ok (.ofList after) ∧
        (before.reverse ++ after =
          cs.filter fun q => !q.samePosition cabinet (cabinetSlot (.element 1))) ∧
        (∀ q ∈ before, q.compare cabinet (cabinetSlot (.element 1)) = .ok .lt) ∧
        (∀ q ∈ after, q.compare cabinet (cabinetSlot (.element 1)) = .ok .gt) ∧
        before.Disjoint after := by
  intro c
  have hctx : cabinetContext.StartsAt (.map 0) := ⟨rfl, rfl, rfl⟩
  have hslots : ∀ step ∈ [NamedStep.simple { name := .bare "b", number := some 2 }], ∀ e,
      step.index = some e → cabinetContext.env.LeavesGraph cabinet e := by
    intro step hstep e he
    rw [List.mem_singleton.1 hstep] at he
    obtain rfl := Option.some.inj he
    exact Environment.leavesGraph_number _ _ _
  have hp := (getPointer_cabinetSlot "/b[2]").2
  obtain ⟨cs, before, after, hamong, hbefore, hafter, hall, hgt, hdisjoint, hlt⟩ :=
    siblingAxes_of_getPointer hctx rfl rfl (simplePath?_cabinetSlot _) hslots hp rfl
  have hlisted : (cabinetSlot (.element 1)).node.IsListed cabinet := by
    refine ⟨rfl, ?_⟩
    decide
  refine ⟨acyclic_cabinet, hctx, hp, cs, before, after, hamong, hbefore, ?_, hafter,
    hall, hlt.2 (.inl hlisted), hgt, hdisjoint⟩
  have hpaths : ((cabinetSlot (.element 1)).along cabinet .standard
      .precedingSibling).toOption.map (fun a => a.nodes.items.map (·.path cabinet)) =
        some ["/b[1]", "/a"] := by decide +kernel
  rw [hbefore] at hpaths
  simpa [Except.toOption] using hpaths

/-- The whole of the list is not listed: its items count as siblings before it, but come after
it. -/
theorem siblingAxes_of_whole_list :
    let c := pathToCabinetSlot "/b" none
    cabinet.Acyclic (.map 0) ∧ cabinetContext.StartsAt (.map 0) ∧
      Grammar.parse "/b" = .ok c.expr.value ∧
      (c.getPointer cabinetContext .standard).result cabinet =
        (.ok (cabinetSlot .whole), cabinet) ∧
      (cabinetSlot .whole).node.isAttribute = false ∧
      ∃ before, (cabinetSlot .whole).along cabinet .standard .precedingSibling =
          .ok (.ofList before) ∧
        before.map (·.path cabinet) = ["/b[2]", "/b[1]", "/a"] ∧
        before.map (·.compare cabinet (cabinetSlot .whole)) =
          [.ok .gt, .ok .gt, .ok .lt] := by
  intro c
  refine ⟨acyclic_cabinet, ⟨rfl, rfl, rfl⟩, by with_unfolding_all rfl,
    (getPointer_cabinetSlot "/b").1, rfl, ?_⟩
  refine ⟨_, (along_siblings rfl).1, by decide +kernel, rfl⟩

end CompiledPath

end PathQuery
