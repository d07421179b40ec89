import PathQuery.Proofs.AlikeEvaluation
import PathQuery.Proofs.SameContents

/-!
# Namesakes

Two pointers that name the same nodes, found at different times, below roots that were found apart
and settled apart, or with different languages. In stores that hold the same they show the same, and
every move leads from namesakes to namesakes: where and when a pointer was found does not matter.

* names: `Pointer.Namesake`.
* **`Namesake.order`**: document order does not tell them apart. Siblings below one parent are
  compared by another rule than siblings whose parents were found twice, but both rules agree on
  chains that are linked.
* **`Store.SameContents.counterparts`**: namesakes are counterparts, at any two times.
-/

namespace PathQuery

theorem Except.alike_refl {α : Type} {P : α → α → Prop} (hP : ∀ a, P a a)
    (x : Except PathError α) : Except.Alike P x x := by
  cases x with
  | error e => exact rfl
  | ok a => exact hP a

namespace Pointer

/-- The pointers name the same nodes, linked below a root. If `b`, they have the same language. -/
structure Namesake (b : Prop) (s : Store) (p q : Pointer) : Prop where
  nodes : q.nodes = p.nodes
  locale (hb : b) : q.locale = p.locale
  linked : ∃ root : Node, root.IsPlain ∧ Linked s root p.nodes

theorem root_eq_getLast (p : Pointer) : p.root = p.nodes.getLast (by simp [nodes, chain]) :=
  (List.getLast_map ..).symm

variable {b : Prop} {s t : Store} {p q p' q' : Pointer} {r r' : Node}

/-! ## Document order -/

theorem compareLineages_congr (h : q.nodes = p.nodes) (h' : q'.nodes = p'.nodes) :
    q.compareLineages s q' = p.compareLineages s p' := by
  simp only [compareLineages, root_eq_getLast, lineage_eq, h, h']

/-- Siblings below one parent are linked to one root, if both are linked to some root. -/
theorem linked_of_sameParent (hp : Linked s r p.nodes) (hp' : Linked s r' p'.nodes)
    (h : p.sameParent p' = true) : Linked s r p'.nodes := by
  simp only [sameParent, Bool.and_eq_true, beq_iff_eq] at h
  obtain ⟨x, hx⟩ := Option.isSome_iff_exists.1 h.1
  rw [nodes_parent? hx, nodes_eq x] at hp
  rw [nodes_parent? (h.2 ▸ hx), nodes_eq x] at hp' ⊢
  cases hp' with
  | link hb _ => exact .link hb hp.tail

/-- The order of linked pointers is that of their nodes, even across roots. -/
theorem order_congr (h : q.nodes = p.nodes) (h' : q'.nodes = p'.nodes)
    (hp : Linked s r p.nodes) (hp' : Linked s r' p'.nodes) :
    q.order s q' = p.order s p' := by
  have hq : Linked s r q.nodes := by rwa [h]
  have hq' : Linked s r' q'.nodes := by rwa [h']
  -- If the parents of one pair are one pointer, both pairs are linked to one root.
  by_cases hsame : p.sameParent p' = true ∨ q.sameParent q' = true
  · have hone : Linked s r p'.nodes := by
      rcases hsame with hs | hs
      · exact linked_of_sameParent hp hp' hs
      · rw [← h']
        exact linked_of_sameParent hq hq' hs
    rw [order_eq_compareLineages hp hone, order_eq_compareLineages hq (by rwa [h']),
      compareLineages_congr h h']
  · obtain ⟨hs, hs'⟩ := not_or.1 hsame
    rw [order, order, if_neg hs, if_neg hs', lineage_eq, lineage_eq, lineage_eq, lineage_eq, h, h']

theorem order_of_sameContents (c : s.SameContents t) : p.order t q = p.order s q := by
  simp only [order, c.compareSiblings, c.compareChains]

namespace Namesake

variable (h : p.Namesake b s q)

include h

/-! ## What namesakes show -/

theorem node : q.node = p.node := by
  have hnodes := h.nodes
  rw [nodes_eq, nodes_eq] at hnodes
  exact (List.cons.inj hnodes).1

theorem isPlain : p.node.IsPlain := by
  obtain ⟨root, hroot, hlinked⟩ := h.linked
  exact hlinked.isPlain hroot

theorem isPlain_right : q.node.IsPlain := h.node ▸ h.isPlain

theorem root_eq : q.root = p.root := by simp only [root_eq_getLast, h.nodes]

theorem symm : q.Namesake b s p :=
  ⟨h.nodes.symm, fun hb => (h.locale hb).symm, by rw [h.nodes]; exact h.linked⟩

theorem weaken {b' : Prop} (hb : b' → b) : p.Namesake b' s q :=
  ⟨h.nodes, fun hb' => h.locale (hb hb'), h.linked⟩

/-- A namesake below namesakes. -/
theorem child {n : Node} (hn : p.node.Below s n) (o o' : Occasion) :
    (p.child o n).Namesake b s (q.child o' n) where
  nodes := congrArg (n :: ·) h.nodes
  locale hb := h.locale hb
  linked := by
    obtain ⟨root, hroot, hlinked⟩ := h.linked
    exact ⟨root, hroot, .link hn hlinked⟩

theorem parent? : Option.Rel (Namesake b s) p.parent? q.parent? := by
  have hnodes := h.nodes
  obtain ⟨root, hroot, hlinked⟩ := h.linked
  have hlocale := h.locale
  obtain ⟨visit, above, locale⟩ := p
  obtain ⟨visit', above', locale'⟩ := q
  have habove := (List.cons.inj hnodes).2
  cases above with
  | nil =>
    obtain rfl := List.map_eq_nil_iff.1 habove
    exact .none
  | cons v above =>
    obtain ⟨v', above', rfl, -, -⟩ := List.map_eq_cons_iff.1 habove
    exact .some ⟨habove, hlocale, root, hroot, hlinked.tail⟩

theorem atIndex? (index : Index) :
    Option.Rel (Namesake b s) (p.atIndex? s index) (q.atIndex? t index) := by
  have hnodes := h.nodes
  rw [nodes_eq, nodes_eq] at hnodes
  obtain ⟨root, hroot, hlinked⟩ := h.linked
  rw [Pointer.atIndex?, Pointer.atIndex?, h.node]
  cases hm : p.node.atIndex? index with
  | none => exact .none
  | some m =>
    exact .some ⟨congrArg (m :: ·) (List.cons.inj hnodes).2, h.locale, root, hroot,
      hlinked.atIndex? hm⟩

variable (c : s.SameContents t)

include c

theorem isWholeCollection : q.isWholeCollection t = p.isWholeCollection s := by
  rw [Pointer.isWholeCollection, Pointer.isWholeCollection, h.node, c.isCollection]

theorem path : q.path t = p.path s := by
  have hbelow : (fun (node : Node) path => node.pathBelow t path) =
      fun node path => node.pathBelow s path := by
    funext node path
    exact c.pathBelow path node
  rw [Pointer.path, Pointer.path, h.nodes, hbelow]

/-- **Namesakes show the same value**, or fail alike. -/
theorem value : q.value t .standard = p.value s .standard := by
  simp only [value_eq_shown, h.node, c.shown, h.path c]

/-- The value lies in nodes that look the same. -/
theorem valuePointer : Except.Alike (fun x y => y.node = x.node) (p.valuePointer s .standard)
    (q.valuePointer t .standard) := by
  have hvalue := h.value c
  cases hlink : p.node.isLink with
  | false =>
    rw [valuePointer_eq_self hlink, valuePointer_eq_self (h.node ▸ hlink)]
    exact h.node
  | true =>
    -- A link is no missing slot, so its value has a node of its own.
    have hkind : p.node.kind ≠ "null-property" := by
      intro hkind
      cases hn : p.node <;> simp [hn, Node.kind, Node.isLink] at hkind hlink
    have hend : q.node.end? t = p.node.end? s := by rw [h.node, c.end?]
    cases he : p.node.end? s with
    | some v =>
      obtain ⟨x, hx, -, hnode⟩ := valuePointer_of_end h.isPlain he
      obtain ⟨y, hy, -, hnode'⟩ := valuePointer_of_end h.isPlain_right (hend.trans he)
      rw [hx, hy]
      rw [h.node] at hnode'
      rcases hnode with hnode | ⟨-, hn, -⟩
      · rcases hnode' with hnode' | ⟨-, hn, -⟩
        · exact hnode'.trans hnode.symm
        · exact absurd hn hkind
      · exact absurd hn hkind
    | none =>
      obtain ⟨e, hx⟩ := valuePointer_of_no_end he
      obtain ⟨e', hy⟩ := valuePointer_of_no_end (hend.trans he)
      rw [Pointer.value, Pointer.value, hx, hy] at hvalue
      rw [hx, hy]
      exact (Except.error.inj hvalue).symm

theorem passes (test : NodeTest) : q.passes t test = p.passes s test := by
  have huri : q.uri? t = p.uri? s := by
    funext qualifier
    rw [uri?, uri?, h.nodes, c.nearest]
  have hdefault : q.defaultUri? t = p.defaultUri? s := by
    rw [defaultUri?, defaultUri?, h.nodes, c.nearest]
  cases test <;> simp only [Pointer.passes, sameNamespace, h.node, huri, hdefault]

theorem ownUri? : q.ownUri? t = p.ownUri? s := by
  simp only [Pointer.ownUri?, uri?, defaultUri?, h.node, h.nodes, c.nearest]

theorem sameRoot (h' : p'.Namesake b s q') : q.sameRoot t q' = p.sameRoot s p' := by
  simp only [Pointer.sameRoot, origin, h.root_eq, h'.root_eq, c.base]

theorem samePosition (h' : p'.Namesake b s q') : q.samePosition t q' = p.samePosition s p' := by
  have hbase (p : Pointer) : p.base t = p.base s := c.base p.node
  have hbase' : q.base s = p.base s := congrArg (Node.base s) h.node
  have hbase'' : q'.base s = p'.base s := congrArg (Node.base s) h'.node
  have habove := congrArg List.length h.nodes
  have habove' := congrArg List.length h'.nodes
  rw [Pointer.samePosition, Pointer.samePosition, h.node, h'.node, hbase, hbase, hbase', hbase'']
  simp only [nodes_eq, List.length_cons, List.length_map, Nat.add_right_cancel_iff] at habove habove'
  cases hp : p.above <;> cases hp' : p'.above <;> cases hq : q.above <;> cases hq' : q'.above <;>
    simp_all

/-- **Document order does not tell namesakes apart.** -/
theorem order (h' : p'.Namesake b s q') : q.order t q' = p.order s p' := by
  obtain ⟨root, -, hlinked⟩ := h.linked
  obtain ⟨root', -, hlinked'⟩ := h'.linked
  rw [order_of_sameContents c, order_congr h.nodes h'.nodes hlinked hlinked']

/-! ## Moves -/

theorem elements : List.Forall₂ (Namesake b s) (p.elements s) (q.elements t) := by
  rw [Pointer.elements, Pointer.elements, h.isWholeCollection c, h.node, c.length]
  split
  · exact List.rel_filterMap (R := (· = ·)) (fun i _ hi => hi ▸ h.atIndex? (.element i))
      (List.forall₂_same.2 fun _ _ => rfl)
  · exact .cons h .nil

theorem item {l : Nat} (hl : p.node.end? s = some (.list l)) (name : Option QName) (i : Nat) :
    (p.item s l name i).Namesake b s (q.item t l name i) := by
  have hnested := h.child (n := .items l name (.element i)) hl s.now t.now
  have hatIndex := h.atIndex? (t := t) (.element i)
  simp only [Pointer.item, h.isWholeCollection c]
  split
  · generalize p.atIndex? s (.element i) = x at hatIndex
    generalize q.atIndex? t (.element i) = y at hatIndex
    cases hatIndex with
    | none => exact hnested
    | some h => exact h
  · exact hnested

/-- What is done with the value that namesakes show. -/
theorem value_bind {α β : Type} {P : α → β → Prop} {f : Value → Except PathError α}
    {g : Value → Except PathError β}
    (hf : ∀ v, p.node.end? s = some v → Except.Alike P (f v) (g v)) :
    Except.Alike P (p.value s .standard >>= f) (q.value t .standard >>= g) := by
  rw [h.value c]
  cases hv : p.value s .standard with
  | error e => exact rfl
  | ok v => exact hf v ((value_eq_ok_iff h.isPlain).1 hv)

omit c in
/-- The slots of the object in a pointer. -/
theorem below {v : Value} (hv : p.node.end? s = some v) {f : Holder → List Node}
    (hf : ∀ k, ∀ n ∈ f k, ∃ name index isAttribute, n = .slot k name index isAttribute) :
    List.Forall₂ (Namesake b s) ((v.holder?.map f).getD [] |>.map (p.child s.now))
      ((v.holder?.map f).getD [] |>.map (q.child t.now)) := by
  rw [List.forall₂_map_left_iff, List.forall₂_map_right_iff, List.forall₂_same]
  intro n hn
  cases hk : v.holder? with
  | none => simp [hk] at hn
  | some k =>
    rw [hk] at hn
    obtain ⟨name, index, isAttribute, rfl⟩ := hf k n hn
    rw [Holder.value_of_holder? hk] at hv
    exact h.child (n := .slot k name index isAttribute) hv s.now t.now

theorem attributes : Except.Alike (List.Forall₂ (Namesake b s)) (p.attributes s .standard)
    (q.attributes t .standard) := by
  rw [attributes_eq h.isPlain, attributes_eq h.isPlain_right, funext c.attributeNodes]
  refine h.value_bind c fun v hv => h.below hv fun k n hn => ?_
  obtain ⟨name, rfl⟩ := Store.mem_attributeNodes hn
  exact ⟨_, _, _, rfl⟩

theorem namespaces : Except.Alike (List.Forall₂ (Namesake b s)) (p.namespaces s .standard)
    (q.namespaces t .standard) := by
  rw [namespaces_eq h.isPlain, namespaces_eq h.isPlain_right]
  exact h.value_bind c fun _ _ => .nil

/-- Children are namesakes if those taken from the items of lists are. -/
theorem childrenWith {inner inner' : Pointer → Except PathError (List Pointer)}
    (hinner : ∀ p q, p.Namesake b s q →
      Except.Alike (List.Forall₂ (Namesake b s)) (inner p) (inner' q)) :
    Except.Alike (List.Forall₂ (Namesake b s)) (p.childrenWith s .standard inner)
      (q.childrenWith t .standard inner') := by
  rw [childrenWith_eq h.isPlain, childrenWith_eq h.isPlain_right, funext c.childNodes]
  refine h.value_bind c fun v hv => ?_
  have hslots := h.below (t := t) hv (f := s.childNodes) fun k n hn => by
    obtain ⟨name, v, -, hn⟩ := Store.mem_childNodes.1 hn
    obtain ⟨index, rfl⟩ := Store.mem_slotNodes hn
    exact ⟨_, _, _, rfl⟩
  -- A list has the children of its items, an object those of its slots.
  cases v with
  | list l =>
    refine (Except.Alike.mapM ?_ hinner).bind fun _ _ hcs => List.rel_flatten hcs
    rw [h.node, c.lists, List.forall₂_map_left_iff, List.forall₂_map_right_iff, List.forall₂_same]
    exact fun i _ => h.item c hv _ i
  | _ => exact hslots

theorem childrenUpTo (n : Nat) : Except.Alike (List.Forall₂ (Namesake b s))
    (p.childrenUpTo s .standard n) (q.childrenUpTo t .standard n) := by
  induction n generalizing p q with
  | zero => exact h.childrenWith c fun _ _ _ => .nil
  | succ n ih => exact h.childrenWith c fun _ _ h => ih h

/-- **Children of namesakes are namesakes.** -/
theorem children : Except.Alike (List.Forall₂ (Namesake b s)) (p.children s .standard)
    (q.children t .standard) := by
  rw [Pointer.children, Pointer.children, c.lists]
  exact h.childrenUpTo c _

/-- Walks down find namesakes. Induction on the depth that is left. -/
theorem subtreeUpTo {n : Nat} {inside : List Value} {rest rest' : Unit → Search}
    (hrest : (rest ()).Alike (Namesake b s) (rest' ())) :
    (p.subtreeUpTo s .standard n inside rest).Alike (Namesake b s)
      (q.subtreeUpTo t .standard n inside rest') := by
  induction n generalizing p q inside rest rest' with
  | zero =>
    have hchildren := h.children c
    unfold Pointer.subtreeUpTo
    rw [h.value c]
    split
    · exact .broken _
    · split
      · exact .found h hrest
      · generalize p.children s .standard = x at hchildren
        generalize q.children t .standard = y at hchildren
        cases x <;> cases y
        · obtain rfl := hchildren
          exact .broken _
        · exact hchildren.elim
        · exact hchildren.elim
        · exact .found h hrest
  | succ n ih =>
    cases hp : p.value s .standard with
    | error e =>
      rw [subtreeUpTo_of_error hp, subtreeUpTo_of_error ((h.value c).trans hp)]
      exact .broken e
    | ok v =>
      cases hgoes : v.isNull || v.isScalar || inside.any (·.same v) with
      | true =>
        rw [subtreeUpTo_of_stops hp hgoes, subtreeUpTo_of_stops ((h.value c).trans hp) hgoes]
        exact .found h hrest
      | false =>
        rw [subtreeUpTo_of_goes_on hp hgoes, subtreeUpTo_of_goes_on ((h.value c).trans hp) hgoes]
        refine Search.alike_ofExcept ((h.children c).bind fun cs ds hcd => ?_)
        exact .found h (Search.alike_each hcd (fun _ _ _ _ hcd hrest => ih hcd hrest) hrest)

/-- **Descendants of namesakes are namesakes.** -/
theorem descendants : Except.Alike (Search.Alike (Namesake b s)) (p.descendants s .standard)
    (q.descendants t .standard) := by
  rw [Pointer.descendants, Pointer.descendants, c.objectCount]
  refine (h.children c).bind fun cs ds hcd => h.value_bind c fun v _ => ?_
  exact Search.alike_each hcd (fun _ _ _ _ hcd hrest => hcd.subtreeUpTo c hrest) .ended

end Namesake

/-! ## Roots -/

/-- The root of a graph is a namesake of itself, found again. -/
theorem namesake_root (s : Store) (v : Value) (locale : Locale) {u u' : Store}
    (c : u.SameContents u') : Except.Alike (Namesake b s) (Registry.standard.root u v locale)
      (Registry.standard.root u' v locale) := by
  by_cases hf : ∃ f, v = .foreign f
  · obtain ⟨f, rfl⟩ := hf
    rw [Registry.root, Registry.root, Registry.create_standard_foreign,
      Registry.create_standard_foreign, c.kind]
    exact rfl
  · have hf' : ∀ f, v ≠ .foreign f := fun f h => hf ⟨f, h⟩
    rw [Registry.root, Registry.root, Registry.create_standard _ _ _ _ hf',
      Registry.create_standard _ _ _ _ hf']
    refine ⟨rfl, fun _ => rfl, v.node none, ?_, .root (.inl rfl)⟩
    cases v <;> first | trivial | rfl | exact absurd rfl (hf' _)

end Pointer

/-! ## Counterparts -/

namespace Store.SameContents

open Pointer (Namesake)

variable {s t : Store} (c : s.SameContents t) (b : Prop)

include c

theorem namesake_eq : Namesake b t = Namesake b s := by
  funext p q
  refine propext ⟨fun h => ⟨h.nodes, h.locale, ?_⟩, fun h => ⟨h.nodes, h.locale, ?_⟩⟩
  · obtain ⟨root, hroot, hlinked⟩ := h.linked
    exact ⟨root, hroot, c.symm.linked hlinked⟩
  · obtain ⟨root, hroot, hlinked⟩ := h.linked
    exact ⟨root, hroot, c.linked hlinked⟩

theorem mirrors : Store.Mirrors (Namesake b s) (· = ·) (· = ·) .standard s t where
  name? h := by rw [h.node]
  isAttribute h := by rw [h.node]
  path h := h.path c
  rootPath h := by rw [Pointer.rootPath, Pointer.rootPath, h.root_eq, c.pathBelow]
  passes h test := h.passes c test
  ownUri? h := h.ownUri? c
  samePosition h h' := h.samePosition c h'
  sameRoot h h' := h.sameRoot c h'
  order h h' := h.order c h'
  parent? h := h.parent?
  elements h := h.elements c
  children h := h.children c
  attributes h := h.attributes c
  namespaces h := h.namespaces c
  descendants h := h.descendants c
  value h := by
    rw [h.value c]
    exact Except.alike_refl (fun _ => rfl) _
  scalarRoot _ locale := Pointer.namesake_root s _ locale c
  objectRoot h locale := h ▸ Pointer.namesake_root s _ locale c
  object h := h
  shown h := by rw [h, c.shownValue]
  ofScalar _ := rfl
  scalar h _ := h.symm
  atom h := by rw [h, c.atom]
  toBool h := by rw [h, c.toBool]
  toNumber h := by rw [h, c.toNumber]
  toText h := by rw [h, c.toText]

/-- **Namesakes are counterparts**, at any two times. -/
theorem counterparts :
    Store.Counterparts (Namesake b s) (· = ·) (· = ·) (fun _ _ => True) .standard s t where
  now := trivial
  part _ _ := trivial
  on {o o'} _ := by
    rw [← (SameGraph.on s o).sameContents.namesake_eq b]
    exact (c.on o o').mirrors b

end Store.SameContents

end PathQuery
