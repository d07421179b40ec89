import Mathlib.Logic.Relation
import PathQuery.Proofs.ChainOrder
import PathQuery.Proofs.Depths
import PathQuery.Proofs.PlainWalks

/-!
# Walking down a graph without cycles

Where nothing holds itself, the walk down from a node never stops short: it finds the node's
children, their children and so on, each of them, in document order.

* names: `Pointer.IsSingle`, `Store.HasChild`, `Store.Earlier`, `Store.Finds`.
* `hasChild_iff`: the chains of children. **`finds_descendants`**: what a walk down finds, and in
  which order.
-/

namespace PathQuery

open Relation (ReflTransGen TransGen)

/-! ## Chains of children -/

namespace ChildChain

variable {s : Store} {ns ms : List Node} {is : List Nat} {name : String} {index : Index}

/-- A child goes on with items of lists and then with a slot. -/
theorem exists_append (h : ChildChain s ns is name index ms) :
    ∃ holder items, ms = .slot holder (.bare name) index false :: (items ++ ns) ∧
      ∀ n ∈ items, ∃ l label i, n = .items l label (.element i) := by
  induction h with
  | slot => exact ⟨_, [], rfl, nofun⟩
  | @item n ns ms l i is name index hend hi hrest ih =>
    obtain ⟨holder, items, rfl, hitems⟩ := ih
    refine ⟨holder, items ++ [.items l n.name? (.element i)], by simp, fun m hm => ?_⟩
    rcases List.mem_append.1 hm with hm | hm
    · exact hitems m hm
    · exact ⟨_, _, _, List.mem_singleton.1 hm⟩

end ChildChain

namespace Store

variable {s t : Store} {ns ms ks : List Node}

/-- The second chain is that of a child of the first. -/
def HasChild (s : Store) (ns ms : List Node) : Prop :=
  ∃ css, s.chainsUpTo s.lists.size ns = some css ∧ ms ∈ css

theorem SameGraph.chainsUpTo (ht : s.SameGraph t) (n : Nat) (ns : List Node) :
    t.chainsUpTo n ns = s.chainsUpTo n ns := by
  have hchildren : t.childNodes = s.childNodes := by
    funext h
    simp only [Store.childNodes, ht.slots, ht.slotNodes]
  have hshown (ns : List Node) : chainView.shown? t ns = chainView.shown? s ns := by
    simp only [chainView, ht.end?]
  have hwith (inner : List Node → Option (List (List Node))) (ns : List Node) :
      chainView.belowWith t inner ns = chainView.belowWith s inner ns := by
    simp only [View.belowWith, hshown, ht.lists, hchildren]
    rfl
  induction n generalizing ns with
  | zero => exact hwith _ ns
  | succ n ih =>
    have hinner : chainView.below t n = chainView.below s n := funext ih
    simp only [Store.chainsUpTo, View.below, hinner, hwith]

theorem SameGraph.hasChild (ht : s.SameGraph t) : t.HasChild = s.HasChild := by
  funext ns ms
  simp only [HasChild, ht.chainsUpTo, ht.lists]

theorem HasChild.exists_childChain (h : s.HasChild ns ms) :
    ∃ is name index, ChildChain s ns is name index ms := by
  obtain ⟨css, hcss, hms⟩ := h
  obtain ⟨is, name, index, hchain, -⟩ := placed_of_mem hcss hms
  exact ⟨is, name, index, hchain⟩

theorem HasChild.suffix (h : s.HasChild ns ms) : ns <:+ ms := by
  obtain ⟨css, hcss, hms⟩ := h
  exact (pairwise_chainsUpTo hcss).suffix hms

theorem HasChild.length_lt (h : s.HasChild ns ms) : ns.length < ms.length := by
  obtain ⟨is, name, index, hchain⟩ := h.exists_childChain
  obtain ⟨holder, items, rfl, -⟩ := hchain.exists_append
  simp only [List.length_cons, List.length_append]
  omega

theorem suffix_of_transGen (h : TransGen s.HasChild ns ms) :
    ns <:+ ms ∧ ns.length < ms.length := by
  induction h with
  | single h => exact ⟨h.suffix, h.length_lt⟩
  | tail _ h ih => exact ⟨ih.1.trans h.suffix, ih.2.trans h.length_lt⟩

theorem suffix_of_reflTransGen (h : ReflTransGen s.HasChild ns ms) : ns <:+ ms := by
  rcases Relation.reflTransGen_iff_eq_or_transGen.1 h with rfl | h
  · exact List.suffix_rfl
  · exact (suffix_of_transGen h).1

/-- In document order the first chain comes before the second: they part in this order, or the
second is below the first. -/
def Earlier (s : Store) (ms ns : List Node) : Prop :=
  s.PartsBefore ms ns ∨ TransGen s.HasChild ms ns

theorem SameGraph.earlier (ht : s.SameGraph t) : t.Earlier = s.Earlier := by
  funext ms ns
  simp only [Earlier, ht.partsBefore, ht.hasChild]

end Store

/-- An object is the same as no other value. -/
theorem Value.eq_of_same {u v : Value} (hobject : v.isObject = true) (h : u.same v = true) :
    u = v := by
  have hsame : u.same v = (u == v) := by
    cases v <;> first | (cases u <;> rfl) | simp [isObject] at hobject
  exact beq_iff_eq.1 (hsame ▸ h)

/-! ## Nodes that stand for themselves -/

namespace Pointer

variable {s t : Store} {p q : Pointer} {cs : List Pointer} {v w root : Value}

/-- The pointer is of the standard registry and is not the whole of a collection. -/
def IsSingle (s : Store) (p : Pointer) : Prop :=
  p.node.IsPlain ∧ p.isWholeCollection s = false

theorem IsSingle.congr (ht : s.SameGraph t) (hp : p.IsSingle s) : p.IsSingle t := by
  refine ⟨hp.1, ?_⟩
  have hbase : p.node.base t = p.node.base s := by
    obtain ⟨_, _, rfl⟩ := ht
    rfl
  have hcollection : p.node.isCollection t = p.node.isCollection s := by
    cases hn : p.node <;> simp only [Node.isCollection, ← hn, hbase, ht.items?]
  rw [isWholeCollection, hcollection]
  exact hp.2

theorem IsAddressed.isSingle {root : Holder} (h : IsAddressed s root p) : p.IsSingle s :=
  ⟨h.isPlain, h.not_isWholeCollection⟩

/-- Children stand for themselves. -/
theorem IsChild.isSingle (h : IsChild s p q) : q.IsSingle s := by
  induction h with
  | @slot p h node hend hnode =>
    obtain ⟨name, v, hentry, hnode⟩ := Store.mem_childNodes.1 hnode
    obtain ⟨index, rfl⟩ := Store.mem_slotNodes hnode
    refine ⟨trivial, ?_⟩
    rw [Store.mem_slotNodes_iff] at hnode
    split at hnode
    · next hitems =>
      simp [isWholeCollection, Node.isCollection, Node.base, QName.text, QName.bare,
        Store.slot_eq (Table.get?_eq_some_iff.2 hentry), hitems]
    · obtain ⟨i, -, rfl⟩ := hnode
      rfl
  | item _ _ _ ih => exact ih

theorem map_nodes_children (hp : p.IsSingle s) (h : p.children s .standard = .ok cs) :
    s.chainsUpTo s.lists.size p.nodes = some (cs.map nodes) := by
  have hchains := Store.toOption_chains (.refl s) s.lists.size hp.1 hp.2
  rw [← children, h] at hchains
  exact hchains.symm

/-- The children of a pointer are those of its chain. -/
theorem hasChild_iff (hp : p.IsSingle s) (h : p.children s .standard = .ok cs) {ms : List Node} :
    s.HasChild p.nodes ms ↔ ∃ c ∈ cs, c.nodes = ms := by
  simp only [Store.HasChild, map_nodes_children hp h, Option.some.injEq, exists_eq_left',
    List.mem_map]

theorem pairwise_children (hp : p.IsSingle s) (h : p.children s .standard = .ok cs) :
    cs.Pairwise fun c c' => s.PartsBefore c.nodes c'.nodes :=
  List.pairwise_map.1 (Store.pairwise_chainsUpTo (map_nodes_children hp h)).pairwise

end Pointer

/-! ## The walk down -/

namespace Store

variable {s : Store} {r : List Node → Prop}

/-- A search finds just these chains, in document order, and all of them have children, if few. -/
structure Finds (s : Store) (r : List Node → Prop) (a : Nodes) : Prop where
  children {q : Pointer} (hq : q ∈ a.items) :
    q.IsSingle s ∧ ∃ cs, q.children s .standard = .ok cs
  found (h : a.failure = none) {ms : List Node} : (∃ q ∈ a.items, q.nodes = ms) ↔ r ms
  ordered (h : a.failure = none) : a.items.Pairwise fun q q' => s.Earlier q.nodes q'.nodes

theorem finds_fail (e : PathError) : s.Finds r (.fail e) := ⟨nofun, nofun, nofun⟩

end Store

namespace Pointer

variable {s : Store} {p q : Pointer} {cs : List Pointer} {v w root : Value}

/-- What is found at the children and below them is what is below the pointer. -/
theorem finds_flatMap {f : Pointer → Nodes} (hp : p.IsSingle s)
    (hcs : p.children s .standard = .ok cs)
    (hf : ∀ c ∈ cs, s.Finds (ReflTransGen s.HasChild c.nodes) (f c)) :
    s.Finds (TransGen s.HasChild p.nodes) ((Nodes.ofList cs).flatMap f) where
  children hq := by
    obtain ⟨c, hc, hq⟩ := Nodes.mem_flatMap hq
    exact (hf c hc).children hq
  found h ms := by
    obtain ⟨-, hfailure, hitems⟩ := Nodes.flatMap_of_failure_eq_none h
    simp only [hitems, List.mem_flatMap, Relation.TransGen.head'_iff, hasChild_iff hp hcs]
    constructor
    · rintro ⟨q, ⟨c, hc, hq⟩, hms⟩
      exact ⟨c.nodes, ⟨c, hc, rfl⟩, ((hf c hc).found (hfailure c hc)).1 ⟨q, hq, hms⟩⟩
    · rintro ⟨_, ⟨c, hc, rfl⟩, hms⟩
      obtain ⟨q, hq, hms⟩ := ((hf c hc).found (hfailure c hc)).2 hms
      exact ⟨q, ⟨c, hc, hq⟩, hms⟩
  ordered h := by
    obtain ⟨-, hfailure, hitems⟩ := Nodes.flatMap_of_failure_eq_none h
    rw [hitems]
    refine List.pairwise_flatMap.2 ⟨fun c hc => (hf c hc).ordered (hfailure c hc), ?_⟩
    refine (pairwise_children hp hcs).imp_of_mem fun {c c'} hc hc' hparts q hq q' hq' => ?_
    have hbelow := ((hf c hc).found (hfailure c hc)).1 ⟨q, hq, rfl⟩
    have hbelow' := ((hf c' hc').found (hfailure c' hc')).1 ⟨q', hq', rfl⟩
    exact .inl (hparts.extend (Store.suffix_of_reflTransGen hbelow)
      (Store.suffix_of_reflTransGen hbelow'))

/-- A node comes before all that is below it. -/
theorem finds_cons {a : Nodes} (hp : p.IsSingle s) (hcs : p.children s .standard = .ok cs)
    (ha : s.Finds (TransGen s.HasChild p.nodes) a) :
    s.Finds (ReflTransGen s.HasChild p.nodes) (.ofList [p] ++ a) where
  children hq := by
    rcases List.mem_cons.1 hq with rfl | hq
    · exact ⟨hp, cs, hcs⟩
    · exact ha.children hq
  found h ms := by
    simp only [Nodes.items_ofList_append, List.singleton_append, List.mem_cons, exists_eq_or_imp,
      ha.found h, Relation.reflTransGen_iff_eq_or_transGen]
    exact or_congr_left eq_comm
  ordered h := by
    refine List.pairwise_cons.2 ⟨fun q hq => .inr ?_, ha.ordered h⟩
    exact (ha.found h).1 ⟨q, hq, rfl⟩

theorem ne_foreign_of_end? {node : Node} (hn : node.IsPlain) (h : node.end? s = some v)
    (f : Nat) : v ≠ .foreign f := by
  rintro rfl
  rw [Node.end?] at h
  split at h
  · generalize node.immediate s = u at h
    generalize Store.maxIndirections - 1 = n at h
    induction n generalizing u with
    | zero => simp [Store.endUpTo?] at h
    | succ n ih => cases u <;> simp [Store.endUpTo?] at h; exact ih _ h
  · next hlink =>
    have hv := Option.some.inj h
    cases node with
    | leaf u name =>
      obtain rfl : u = .foreign f := hv
      exact absurd hn (by simp [Node.IsPlain, Value.isScalar])
    | items l name index =>
      obtain rfl : index = .whole := by simpa [Node.isLink] using hlink
      simp [Node.immediate] at hv
    | missing name index isAttribute =>
      have hnull : Value.null = .foreign f := (Store.select_null s index).symm.trans hv
      cases hnull
    | map | bean | null => simp [Node.immediate, Node.base, Node.index, Store.select] at hv
    | slot | var | cell => exact hlink rfl
    | element | markupText => exact hn

/-- A scalar has no children, and neither has nothing. -/
theorem children_of_not_isObject (hp : p.node.IsPlain) (hv : p.value s .standard = .ok v)
    (hobject : v.isObject = false) : p.children s .standard = .ok [] := by
  have hwith (inner : Pointer → Except PathError (List Pointer)) :
      p.childrenWith s .standard inner = .ok [] := by
    rw [childrenWith_eq hp, hv]
    cases v <;> first | rfl | simp [Value.isObject] at hobject
  rw [children]
  cases s.lists.size <;> exact hwith _

/-- The walk is inside these values, each of which holds what leads on to the next. -/
def Inside (s : Store) (root : Value) (inside : List Value) (v : Value) : Prop :=
  ∀ u ∈ inside, s.Reaches root u ∧ ∃ w ∈ s.held u, s.Reaches w v

/-- A walk does not come back to a value that it is inside of. -/
theorem Inside.not_same {inside : List Value} (hacyclic : s.Acyclic root)
    (h : Inside s root inside v) (hobject : v.isObject = true) :
    inside.any (·.same v) = false := by
  refine List.any_eq_false.2 fun u hu hsame => ?_
  obtain ⟨hreach, x, hx, hxv⟩ := h u hu
  exact hacyclic.noReturn hreach hx (Value.eq_of_same hobject hsame ▸ hxv)

/-- The walk goes on inside the value of a pointer to the value of a child. -/
theorem Inside.child {inside : List Value} (h : Inside s root inside v) (hv : s.Reaches root v)
    (hc : IsChild s p q) (hp : p.node.end? s = some v) (hq : q.node.end? s = some w) :
    Inside s root (v :: inside) w := by
  obtain ⟨u, hu, huw⟩ := hc.exists_held hp hq
  refine List.forall_mem_cons.2 ⟨⟨hv, u, hu, huw⟩, fun x hx => ?_⟩
  obtain ⟨hreach, y, hy, hyv⟩ := h x hx
  exact ⟨hreach, y, hy, hyv.trans ((Store.reaches_of_mem_held hu).trans huw)⟩

/-- **The walk down a graph without cycles is complete.** Induction on the depth that is left. -/
theorem finds_subtreeUpTo (hacyclic : s.Acyclic root) {n : Nat} {inside : List Value}
    (hp : p.IsSingle s) (hroot : ∀ v, p.node.end? s = some v →
      s.Reaches root v ∧ s.Shallow n v ∧ Inside s root inside v) :
    s.Finds (ReflTransGen s.HasChild p.nodes)
      (p.subtreeUpTo s .standard n inside fun _ => .ended).nodes := by
  induction n using Nat.strong_induction_on generalizing inside p with
  | _ n ih =>
    cases hvalue : p.value s .standard with
    | error e =>
      rw [subtreeUpTo_of_error hvalue]
      exact Store.finds_fail e
    | ok v =>
      have hend := (value_eq_ok_iff hp.1).1 hvalue
      obtain ⟨hreach, hshallow, hinside⟩ := hroot v hend
      cases hobject : v.isObject with
      | false =>
        have hatom : (v.isNull || v.isScalar) = true := by
          have hforeign := ne_foreign_of_end? hp.1 hend
          cases v <;> first | rfl | exact absurd rfl (hforeign _) | simp [Value.isObject] at hobject
        have hcs := children_of_not_isObject hp.1 hvalue hobject
        rw [subtreeUpTo_of_stops hvalue (by rw [hatom, Bool.true_or])]
        have hbelow : s.Finds (TransGen s.HasChild p.nodes) {} :=
          finds_flatMap (f := fun _ => {}) hp hcs fun _ h => absurd h List.not_mem_nil
        rw [Search.nodes_found, Search.nodes_ended]
        exact finds_cons hp hcs hbelow
      | true =>
        have hgoes : (v.isNull || v.isScalar || inside.any (·.same v)) = false := by
          rw [hinside.not_same hacyclic hobject]
          cases v <;> first | rfl | simp [Value.isObject] at hobject
        -- no object has depth zero
        obtain ⟨n, rfl⟩ := hshallow.exists_succ hobject
        rw [subtreeUpTo_of_goes_on hvalue hgoes]
        cases hcs : p.children s .standard with
        | error e => exact Store.finds_fail e
        | ok cs =>
          have hnodes (c : Pointer) (rest : Unit → Search) :=
            nodes_subtreeUpTo s .standard n (v :: inside) c rest
          rw [Except.ok_bind, Except.pure_eq_ok, Search.ofExcept, Search.nodes_found,
            Search.nodes_each hnodes, Search.nodes_ended, Nodes.append_nil]
          refine finds_cons hp hcs (finds_flatMap hp hcs fun c hc => ?_)
          have hchild := isChild_of_mem hp.1 hcs hc
          refine ih n (Nat.lt_succ_self n) hchild.isSingle fun w hw => ?_
          obtain ⟨u, hu, huw⟩ := hchild.exists_held hend hw
          exact ⟨hreach.trans ((Store.reaches_of_mem_held hu).trans huw),
            hchild.shallow hend hshallow hw, hinside.child hreach hchild hend hw⟩

/-- **What is below a node of a graph without cycles**: its children, their children and so on, in
document order. -/
theorem finds_descendants {a : Search} (hacyclic : s.Acyclic root) (hp : p.IsSingle s)
    (hroot : ∀ v, p.node.end? s = some v → s.Reaches root v)
    (h : p.descendants s .standard = .ok a) :
    s.Finds (TransGen s.HasChild p.nodes) a.nodes ∧
      s.Finds (ReflTransGen s.HasChild p.nodes) (.ofList [p] ++ a.nodes) := by
  obtain ⟨cs, hcs, h⟩ := Except.bind_eq_ok_iff.1 h
  obtain ⟨v, hvalue, h⟩ := Except.bind_eq_ok_iff.1 h
  obtain rfl := Except.ok.inj h
  have hend := (value_eq_ok_iff hp.1).1 hvalue
  have hreach := hroot v hend
  have hbelow : s.Finds (TransGen s.HasChild p.nodes)
      ((Nodes.ofList cs).flatMap fun c =>
        (c.subtreeUpTo s .standard s.objectCount [v] fun _ => .ended).nodes) := by
    refine finds_flatMap hp hcs fun c hc => ?_
    have hchild := isChild_of_mem hp.1 hcs hc
    refine finds_subtreeUpTo hacyclic hchild.isSingle fun w hw => ?_
    obtain ⟨u, hu, huw⟩ := hchild.exists_held hend hw
    have hw' := hreach.trans ((Store.reaches_of_mem_held hu).trans huw)
    have houtside : Inside s root [] v := nofun
    exact ⟨hw', hacyclic.shallow.reaches hw', houtside.child hreach hchild hend hw⟩
  rw [Search.nodes_each (nodes_subtreeUpTo s .standard _ _), Search.nodes_ended, Nodes.append_nil]
  exact ⟨hbelow, finds_cons hp hcs hbelow⟩

end Pointer

end PathQuery
