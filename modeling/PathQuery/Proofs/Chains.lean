import Mathlib.Data.List.Chain
import PathQuery.Proofs.Children
import PathQuery.Query.Single

/-!
# Chains of nodes

Every pointer obtained from a root by navigation has a chain in which each link stands below the one
above it: a slot below the object in it, an item below its list, a missing slot below anything.

* names: `Node.Below`, `Node.IsVariant`, `Linked`; `Pointer.Origin`, `Pointer.Obtained`.
* **`Obtained.linked`**: navigation keeps chains linked, whatever the mix of its steps.
-/

namespace PathQuery

/-! ## Stores with one graph show the same -/

namespace Store.SameGraph

variable {s t : Store} (h : SameGraph s t)

include h

theorem immediate (node : Node) : node.immediate t = node.immediate s := by
  have hselect := select_congr h.lists h.cells
  obtain ⟨_, _, rfl⟩ := h
  cases node <;> first | rfl | exact hselect _ _

theorem end? (node : Node) : node.end? t = node.end? s := by
  rw [Node.end?, Node.end?, h.immediate, endUpTo?_congr h.cells]

theorem length (node : Node) : node.length t = node.length s := by
  have hunwrap (v : Value) : t.unwrap v = s.unwrap v := unwrapUpTo_congr h.cells _ v
  have hitems := items?_congr h.lists h.cells
  obtain ⟨_, _, rfl⟩ := h
  cases node with
  | slot holder name =>
    simp only [Node.length, hunwrap]
    rfl
  | var scope name => exact congrArg (fun o => (Option.map List.length o).getD 1) (hitems _)
  | _ => rfl

theorem isActual (node : Node) : node.isActual t = node.isActual s := by
  have hlength := h.length node
  obtain ⟨_, _, rfl⟩ := h
  cases node <;> simp only [Node.isActual, Node.inRange, hlength]

end Store.SameGraph

/-! ## Linked chains -/

namespace Node

variable (s : Store)

/-- The second node stands below the first. -/
def Below (n : Node) : Node → Prop
  | slot h _ _ _ => n.end? s = some h.value
  | items l _ _ => n.end? s = some (.list l)
  | missing .. => True
  | _ => False

/-- The node is another node at some index. -/
def IsVariant (n m : Node) : Prop := m = n ∨ ∃ index, n.atIndex? index = some m

variable {s} {n m m' : Node} {index : Index}

theorem isPlain_of_below (h : n.Below s m) : m.IsPlain := by
  cases m <;> trivial

theorem below_atIndex? (h : n.Below s m) (hm : m.atIndex? index = some m') : n.Below s m' := by
  cases m <;> simp only [atIndex?, Option.some.injEq, reduceCtorEq] at hm <;> subst hm <;> exact h

theorem isVariant_atIndex? (h : n.IsVariant m) (hm : m.atIndex? index = some m') :
    n.IsVariant m' := by
  rcases h with rfl | ⟨i, hi⟩
  · exact .inr ⟨index, hm⟩
  · refine .inr ⟨index, ?_⟩
    rw [← hm]
    cases n <;> simp only [atIndex?, Option.some.injEq, reduceCtorEq] at hi <;> subst hi <;> rfl

theorem isPlain_of_isVariant (hn : n.IsPlain) (h : n.IsVariant m) : m.IsPlain := by
  rcases h with rfl | ⟨i, hi⟩
  · exact hn
  · cases n <;> simp only [atIndex?, Option.some.injEq, reduceCtorEq] at hi <;> subst hi <;> trivial

theorem base_of_isVariant (h : n.IsVariant m) : m.base s = n.base s := by
  rcases h with rfl | ⟨i, hi⟩
  · rfl
  · cases n <;> simp only [atIndex?, Option.some.injEq, reduceCtorEq] at hi <;> subst hi <;> rfl

/-- Nodes of one collection at one index are one node. -/
theorem eq_of_isVariant (h : n.IsVariant m) (h' : n.IsVariant m') (hi : m.index = m'.index) :
    m = m' := by
  rcases h with rfl | ⟨i, hi⟩ <;> rcases h' with rfl | ⟨j, hj⟩
  · rfl
  · cases m <;> simp only [atIndex?, Option.some.injEq, reduceCtorEq] at hj <;> subst hj <;>
      simp_all [index]
  · cases m' <;> simp only [atIndex?, Option.some.injEq, reduceCtorEq] at hi <;> subst hi <;>
      simp_all [index]
  · cases n <;> simp only [atIndex?, Option.some.injEq, reduceCtorEq] at hi hj <;> subst hi <;>
      subst hj <;> simp_all [index]

theorem below_congr {t : Store} (h : Store.SameGraph s t) : n.Below t m ↔ n.Below s m := by
  cases m <;> simp [Below, h.end?]

end Node

/-- A chain of nodes, the nearest first, that leads down from a root. -/
inductive Linked (s : Store) (root : Node) : List Node → Prop
  | root {n : Node} (h : root.IsVariant n) : Linked s root [n]
  | link {n m : Node} {ns : List Node} (hb : n.Below s m) (h : Linked s root (n :: ns)) :
    Linked s root (m :: n :: ns)

namespace Linked

variable {s : Store} {r n m : Node} {ns : List Node} {index : Index}

theorem isPlain (hr : r.IsPlain) (h : Linked s r (n :: ns)) : n.IsPlain := by
  cases h with
  | root h => exact Node.isPlain_of_isVariant hr h
  | link hb _ => exact Node.isPlain_of_below hb

theorem congr {t : Store} (ht : s.SameGraph t) (h : Linked s r ns) : Linked t r ns := by
  induction h with
  | root h => exact .root h
  | link hb _ ih => exact .link ((Node.below_congr ht).2 hb) ih

theorem atIndex? (h : Linked s r (n :: ns)) (hm : n.atIndex? index = some m) :
    Linked s r (m :: ns) := by
  cases h with
  | root h => exact .root (Node.isVariant_atIndex? h hm)
  | link hb h => exact .link (Node.below_atIndex? hb hm) h

theorem tail (h : Linked s r (n :: m :: ns)) : Linked s r (m :: ns) := by
  cases h with
  | link _ h => exact h

theorem getLast (h : Linked s r ns) (hne : ns ≠ []) : r.IsVariant (ns.getLast hne) := by
  induction h with
  | root h => exact h
  | link _ _ ih => exact ih (by simp)

/-- The chain from the root down. -/
theorem exists_reverse (h : Linked s r ns) :
    ∃ n rest, ns.reverse = n :: rest ∧ r.IsVariant n ∧ List.IsChain (Node.Below s) (n :: rest) := by
  induction h with
  | root h => exact ⟨_, [], rfl, h, by simp⟩
  | @link n m ns hb _ ih =>
    obtain ⟨n₀, rest, heq, hv, hchain⟩ := ih
    refine ⟨n₀, rest ++ [m], by rw [List.reverse_cons, heq]; rfl, hv, ?_⟩
    have hlast : (n₀ :: rest).getLast? = some n := by rw [← heq]; simp
    rw [← List.cons_append, List.isChain_append]
    refine ⟨hchain, by simp, fun x hx y hy => ?_⟩
    rw [hlast, Option.mem_some] at hx
    simp only [List.head?_cons, Option.mem_some] at hy
    exact hx ▸ hy ▸ hb

end Linked

/-! ## Chains of pointers -/

namespace Pointer

variable {s : Store} {p q : Pointer} {r : Node}

theorem nodes_eq (p : Pointer) : p.nodes = p.node :: p.above.map Visit.node := rfl

theorem nodes_parent? (h : p.parent? = some q) : p.nodes = p.node :: q.nodes := by
  obtain ⟨visit, above, locale⟩ := p
  cases above with
  | nil => simp [parent?] at h
  | cons v vs =>
    simp only [parent?, Option.some.injEq] at h
    subst h
    rfl

theorem nodes_atIndex? {index : Index} (h : p.atIndex? s index = some q) :
    ∃ node, p.node.atIndex? index = some node ∧ q.nodes = node :: p.above.map Visit.node := by
  obtain ⟨node, hnode, rfl⟩ := Option.map_eq_some_iff.1 h
  exact ⟨node, hnode, rfl⟩

/-- A slot passes its own local name and no other, whatever the qualifier. -/
theorem passes_name {h : Holder} {key : String} {index : Index} {a : Bool} {name : QName}
    (hp : p.node = .slot h (.bare key) index a) (hname : name.isWildcard = false) :
    p.passes s (.name name) = (key == name.name) := by
  have huri (q : String) : p.uri? s q = none := by
    rw [uri?, nodes_eq, hp]
    rfl
  have hdefault : p.defaultUri? s = none := by
    rw [defaultUri?, nodes_eq, hp]
    rfl
  have hnamespace : p.sameNamespace s name (.bare key) = true := by
    cases hq : name.qualifier <;> simp [sameNamespace, hq, huri, hdefault, QName.bare]
  simp only [passes, hp, Node.name?, Node.isContainer, hnamespace, hname]
  rw [Bool.eq_iff_iff]
  simpa [QName.bare] using eq_comm

theorem linked_item (h : Linked s r p.nodes) {l i : Nat} (hend : p.node.end? s = some (.list l)) :
    Linked s r (p.item s l p.node.name? i).nodes := by
  rcases item_cases (s := s) p l p.node.name? i with ⟨-, hq⟩ | ⟨-, -, node, hn, hq, habove, -⟩
  · rw [hq]
    exact .link hend h
  · rw [nodes_eq, hq, habove]
    exact h.atIndex? hn

theorem IsChild.linked (hq : IsChild s p q) (h : Linked s r p.nodes) : Linked s r q.nodes := by
  induction hq with
  | slot hend hnode =>
    obtain ⟨name, v, -, hnode⟩ := Store.mem_childNodes.1 hnode
    obtain ⟨index, rfl⟩ := Store.mem_slotNodes hnode
    exact .link hend h
  | item hend _ _ ih => exact ih (linked_item h hend)

theorem linked_attributes {qs : List Pointer} (hr : r.IsPlain) (h : Linked s r p.nodes)
    (hqs : p.attributes s .standard = .ok qs) (hq : q ∈ qs) : Linked s r q.nodes := by
  have hp : p.node.IsPlain := h.isPlain hr
  rw [attributes_eq hp] at hqs
  obtain ⟨v, hv, hqs⟩ := Except.bind_eq_ok_iff.1 hqs
  rw [value_eq_ok_iff hp] at hv
  obtain rfl := Except.ok.inj hqs
  obtain ⟨node, hnode, rfl⟩ := List.mem_map.1 hq
  cases hh : v.holder? with
  | none => simp [hh] at hnode
  | some holder =>
    rw [Holder.value_of_holder? hh] at hv
    obtain ⟨name, rfl⟩ := Store.mem_attributeNodes (by simpa [hh] using hnode)
    exact .link hv h

theorem linked_slot? {name : QName} {isAttribute : Bool} (hr : r.IsPlain)
    (h : Linked s r p.nodes) (hq : p.slot? s .standard name isAttribute = .ok (some q)) :
    Linked s r q.nodes := by
  have hp : p.node.IsPlain := h.isPlain hr
  rw [slot?_eq hp] at hq
  obtain ⟨v, hv, hq⟩ := Except.bind_eq_ok_iff.1 hq
  rw [value_eq_ok_iff hp] at hv
  cases hh : v.holder? with
  | none => simp [hh] at hq
  | some holder =>
    rw [Holder.value_of_holder? hh] at hv
    simp only [hh] at hq
    split at hq
    · obtain rfl := Option.some.inj (Except.ok.inj hq)
      exact .link hv h
    · simp at hq

end Pointer

/-! ## Simple paths -/

namespace Environment

open Pointer

variable {s : Store} {r : Node} {p q : Pointer} {name : QName} {isAttribute : Bool}

theorem linked_firstPassing (hr : r.IsPlain) (h : Linked s r p.nodes)
    (hq : firstPassing .standard p name isAttribute s = .ok (some q)) : Linked s r q.nodes := by
  cases isAttribute with
  | true =>
    obtain ⟨qs, hqs, hq⟩ := Except.bind_eq_ok_iff.1 hq
    exact linked_attributes hr h hqs (List.mem_of_find?_eq_some (Except.ok.inj hq))
  | false =>
    obtain ⟨qs, hqs, hq⟩ := Except.bind_eq_ok_iff.1 hq
    have hmem := List.mem_of_find?_eq_some (Except.ok.inj hq)
    exact (isChild_of_mem (h.isPlain hr) hqs hmem).linked h

theorem linked_missing (h : Linked s r p.nodes) (index : Index) (t : Store) :
    Linked s r (missing p name isAttribute index t).nodes := .link trivial h

theorem linked_slotOrMissing (hr : r.IsPlain) (h : Linked s r p.nodes)
    (hq : slotOrMissing .standard p name isAttribute s = .ok q) : Linked s r q.nodes := by
  obtain ⟨slot, hslot, hq⟩ := Except.bind_eq_ok_iff.1 hq
  cases slot with
  | some slot =>
    obtain rfl := Except.ok.inj hq
    exact linked_slot? hr h hslot
  | none =>
    obtain ⟨other, hother, hq⟩ := Except.bind_eq_ok_iff.1 hq
    obtain rfl := Except.ok.inj hq
    cases other with
    | some other => exact linked_firstPassing hr h hother
    | none => exact linked_missing h _ _

theorem linked_elementOf {slot : Pointer} (h : Linked s r p.nodes) (hslot : Linked s r slot.nodes)
    (i : Int) (t : Store) : Linked s r (elementOf p slot name isAttribute i t).nodes := by
  rw [elementOf]
  split
  · next q hq =>
    split at hq
    · obtain ⟨node, hnode, hq⟩ := nodes_atIndex? hq
      rw [hq]
      exact hslot.atIndex? hnode
    · simp at hq
  · split
    · exact hslot
    · exact linked_missing h _ _

/-- What one slot of a simple path leads to: the slot itself, an element of it or a missing one. -/
theorem resolveStep_cases {env : Environment} {o : Occasion} {step : SimpleStep} {t t' : Store}
    (hq : (env.resolveStep .standard o p step).result t = (.ok q, t')) :
    ∃ slot, slotOrMissing .standard p step.name step.isAttribute (t.on o) = .ok slot ∧
      match step.index with
      | none => q = slot ∧ t' = t
      | some e =>
        t' = ((env.compute .standard e { node := p, occasion := o.part 0 }).result t).2 ∧
          (q = slot ∨ (∃ i, q = elementOf p slot step.name step.isAttribute i (t'.on o)) ∨
            ∃ index, q = missing p step.name step.isAttribute index (t'.on o)) := by
  rw [resolveStep, Action.result_bind_eq_ok_iff] at hq
  obtain ⟨slot, u, hslot, hq⟩ := hq
  simp only [Action.result_read, Prod.mk.injEq] at hslot
  obtain ⟨hslot, rfl⟩ := hslot
  refine ⟨slot, hslot, ?_⟩
  cases hi : step.index with
  | none =>
    simp only [hi, Action.result_pure, Prod.mk.injEq, Except.ok.injEq] at hq
    exact ⟨hq.1.symm, hq.2.symm⟩
  | some e =>
    simp only [hi, Action.result_bind_eq_ok_iff, Action.result_liftM, Action.result_get,
      Prod.mk.injEq] at hq
    obtain ⟨outcome, u, houtcome, a, _, ⟨-, rfl⟩, _, _, ⟨hu, rfl⟩, hq⟩ := hq
    obtain rfl := Except.ok.inj hu
    have hstore (x : Pointer) (h : (pure x : Action Pointer).result u = (.ok q, t')) :
        q = x ∧ t' = u := by
      simp only [Action.result_pure, Prod.mk.injEq, Except.ok.injEq] at h
      exact ⟨h.1.symm, h.2.symm⟩
    simp only [houtcome]
    split at hq
    · obtain ⟨rfl, rfl⟩ := hstore _ hq
      exact ⟨rfl, .inr (.inl ⟨_, rfl⟩)⟩
    · split at hq
      · obtain ⟨rfl, rfl⟩ := hstore _ hq
        exact ⟨rfl, .inl rfl⟩
      · obtain ⟨rfl, rfl⟩ := hstore _ hq
        exact ⟨rfl, .inr (.inr ⟨_, rfl⟩)⟩

end Environment

/-! ## Navigation -/

/-- Evaluating an expression leaves the graph of a store as it is. -/
def Environment.LeavesGraph (env : Environment) (s : Store) (e : Expr) : Prop :=
  ∀ focus t, s.SameGraph t → s.SameGraph ((env.compute .standard e focus).result t).2

theorem Environment.leavesGraph_number (env : Environment) (s : Store) (x : Float) :
    env.LeavesGraph s (.number x) := by
  intro focus t ht
  rwa [compute, Action.result_pure]

namespace Pointer

/-- A pointer to the root of a graph: to a value, or to a variable. -/
inductive Origin (s : Store) : Pointer → Prop
  | value {t : Store} {v : Value} {locale : Locale} {p : Pointer} (ht : s.SameGraph t)
    (h : Registry.standard.root t v locale = .ok p) : Origin s p
  | var {t : Store} {env : Environment} {name : QName} {p : Pointer} (ht : s.SameGraph t)
    (h : env.variablePointer? t name = some p) : Origin s p

/-- The second pointer is obtained from the first by moving through the graph of a store. Time may
pass, but the graph stays as it is. -/
inductive Obtained (s : Store) (root : Pointer) : Pointer → Prop
  | root : Obtained s root root
  | child {t : Store} {p q : Pointer} {qs : List Pointer} (hp : Obtained s root p)
    (ht : s.SameGraph t) (h : p.children t .standard = .ok qs) (hq : q ∈ qs) : Obtained s root q
  | attr {t : Store} {p q : Pointer} {qs : List Pointer} (hp : Obtained s root p)
    (ht : s.SameGraph t) (h : p.attributes t .standard = .ok qs) (hq : q ∈ qs) : Obtained s root q
  | slot {t : Store} {p q : Pointer} {name : QName} {isAttribute : Bool} (hp : Obtained s root p)
    (ht : s.SameGraph t) (h : p.slot? t .standard name isAttribute = .ok (some q)) :
    Obtained s root q
  | atIndex {t : Store} {p q : Pointer} {index : Index} (hp : Obtained s root p)
    (ht : s.SameGraph t) (h : p.atIndex? t index = some q) : Obtained s root q
  | parent {p q : Pointer} (hp : Obtained s root p) (h : p.parent? = some q) : Obtained s root q
  | resolved {t t' : Store} {p q : Pointer} {env : Environment} {o : Occasion}
    {steps : List SimpleStep} (hp : Obtained s root p) (ht : s.SameGraph t)
    (hsteps : ∀ step ∈ steps, ∀ e, step.index = some e → env.LeavesGraph s e)
    (h : (env.resolve .standard o p steps).result t = (.ok q, t')) : Obtained s root q

variable {s : Store} {root p q : Pointer}

theorem Origin.above (h : Origin s root) : root.above = [] := by
  cases h with
  | value ht h =>
    rw [Registry.root, Registry.create] at h
    split at h
    · obtain rfl := Except.ok.inj h
      rfl
    · simp at h
  | var ht h =>
    obtain ⟨scope, -, rfl⟩ := Option.map_eq_some_iff.1 h
    rfl

theorem Origin.isPlain (h : Origin s root) : root.node.IsPlain := by
  cases h with
  | @value t v locale _ ht h =>
    by_cases hf : ∃ f, v = .foreign f
    · obtain ⟨f, rfl⟩ := hf
      rw [Registry.root, Registry.create_standard_foreign] at h
      simp at h
    · rw [Registry.root, Registry.create_standard t _ _ _ fun f h => hf ⟨f, h⟩] at h
      obtain rfl := Except.ok.inj h
      cases v <;> first | trivial | rfl | exact absurd ⟨_, rfl⟩ hf
  | var ht h =>
    obtain ⟨scope, -, rfl⟩ := Option.map_eq_some_iff.1 h
    trivial

theorem Origin.linked (h : Origin s root) : Linked s root.node root.nodes := by
  rw [nodes_eq, h.above]
  exact .root (.inl rfl)

theorem linked_resolveStep {env : Environment} {step : SimpleStep} {o : Occasion} {t t' : Store}
    {r : Node} (hr : r.IsPlain) (hp : Linked s r p.nodes) (ht : s.SameGraph t)
    (hstep : ∀ e, step.index = some e → env.LeavesGraph s e)
    (h : (env.resolveStep .standard o p step).result t = (.ok q, t')) :
    Linked s r q.nodes ∧ s.SameGraph t' := by
  obtain ⟨slot, hslot, hcases⟩ := Environment.resolveStep_cases h
  have hto : s.SameGraph (t.on o) := ht.trans (.on t _)
  have hlinked : Linked s r slot.nodes :=
    (Environment.linked_slotOrMissing hr (hp.congr hto) hslot).congr hto.symm
  cases hi : step.index with
  | none =>
    simp only [hi] at hcases
    obtain ⟨rfl, rfl⟩ := hcases
    exact ⟨hlinked, ht⟩
  | some e =>
    simp only [hi] at hcases
    obtain ⟨rfl, hcases⟩ := hcases
    refine ⟨?_, hstep e hi _ _ ht⟩
    rcases hcases with rfl | ⟨i, rfl⟩ | ⟨index, rfl⟩
    · exact hlinked
    · exact Environment.linked_elementOf hp hlinked _ _
    · exact Environment.linked_missing hp _ _

theorem linked_resolve {env : Environment} {steps : List SimpleStep} {o : Occasion}
    {t t' : Store} {r : Node} (hr : r.IsPlain) (hp : Linked s r p.nodes) (ht : s.SameGraph t)
    (hsteps : ∀ step ∈ steps, ∀ e, step.index = some e → env.LeavesGraph s e)
    (h : (env.resolve .standard o p steps).result t = (.ok q, t')) :
    Linked s r q.nodes ∧ s.SameGraph t' := by
  induction steps generalizing p o t with
  | nil =>
    simp only [Environment.resolve, Action.result_pure, Prod.mk.injEq, Except.ok.injEq] at h
    exact ⟨h.1 ▸ hp, h.2 ▸ ht⟩
  | cons step steps ih =>
    rw [Environment.resolve, Action.result_bind_eq_ok_iff] at h
    obtain ⟨next, u, hnext, h⟩ := h
    obtain ⟨hlinked, hu⟩ :=
      linked_resolveStep hr hp ht (hsteps step (List.mem_cons_self ..)) hnext
    exact ih hlinked hu (fun step hs => hsteps step (List.mem_cons_of_mem _ hs)) h

/-- **Navigation keeps chains linked.** -/
theorem Obtained.linked (hroot : Origin s root) (h : Obtained s root p) :
    Linked s root.node p.nodes := by
  have hr := hroot.isPlain
  induction h with
  | root => exact hroot.linked
  | child _ ht h hq ih =>
    exact ((isChild_of_mem (ih.isPlain hr) h hq).linked (ih.congr ht)).congr ht.symm
  | attr _ ht h hq ih => exact (linked_attributes hr (ih.congr ht) h hq).congr ht.symm
  | slot _ ht h ih => exact (linked_slot? hr (ih.congr ht) h).congr ht.symm
  | atIndex _ _ h ih =>
    obtain ⟨node, hnode, hq⟩ := nodes_atIndex? h
    rw [hq]
    exact ih.atIndex? hnode
  | @parent p q _ h ih =>
    rw [nodes_parent? h] at ih
    exact ih.tail
  | resolved _ ht hsteps h ih => exact (linked_resolve hr ih ht hsteps h).1

end Pointer

end PathQuery
