import PathQuery.Pointer.Order
import PathQuery.Proofs.Chains
import PathQuery.Proofs.Integers
import PathQuery.Proofs.Tables

/-!
# Document order is a total preorder

Pointers are compared by a shortcut for siblings and by a walk that skips levels at which the nodes
look alike. On linked chains both come to the lexicographic order of the chains under the order of
siblings, which is a preorder because it compares keys.

* names: `Pointer.compareLineages`, `Node.Twins`.
* **`order_eq_compareLineages`**: document order is that lexicographic order.
* **`compare_total_preorder`**: it is total, antisymmetric up to ties and transitive.
-/

namespace PathQuery

open Std

/-! ## The order of siblings compares keys -/

instance : TransCmp compareBool where
  eq_swap {a b} := by cases a <;> cases b <;> rfl
  isLE_trans {a b c} := by cases a <;> cases b <;> cases c <;> decide

instance : TransCmp comparePlaces where
  eq_swap {a b} := by
    have hswap (i j : Nat) : Ord.compare i j = (Ord.compare j i).swap := OrientedCmp.eq_swap
    cases a <;> cases b <;> first | rfl | exact hswap _ _
  isLE_trans {a b c} := by
    have htrans (i j k : Nat) : (Ord.compare i j).isLE → (Ord.compare j k).isLE →
        (Ord.compare i k).isLE := TransCmp.isLE_trans
    cases a <;> cases b <;> cases c <;> first | exact htrans _ _ _ | simp [comparePlaces]

instance : TransCmp Index.compare where
  eq_swap {a b} := by
    have hswap (i j : Int) : Ord.compare i j = (Ord.compare j i).swap := OrientedCmp.eq_swap
    cases a <;> cases b <;> first | rfl | exact hswap _ _
  isLE_trans {a b c} := by
    have htrans (i j k : Int) : (Ord.compare i j).isLE → (Ord.compare j k).isLE →
        (Ord.compare i k).isLE := TransCmp.isLE_trans
    cases a <;> cases b <;> cases c <;> first | exact htrans _ _ _ | simp [Index.compare]

theorem compareBool_eq_iff {a b : Bool} : compareBool a b = .eq ↔ a = b := by
  cases a <;> cases b <;> decide

theorem comparePlaces_eq_iff {a b : Option Nat} : comparePlaces a b = .eq ↔ a = b := by
  cases a <;> cases b <;> simp [comparePlaces]

theorem Index.compare_eq_iff {a b : Index} : a.compare b = .eq ↔ a = b := by
  cases a <;> cases b <;> simp [Index.compare]

/-- An order of keys is an order of what has the keys. -/
theorem transCmp_on {α β : Type} (f : α → β) (cmp : β → β → Ordering) [TransCmp cmp] :
    TransCmp fun a b => cmp (f a) (f b) where
  eq_swap {a b} := (OrientedCmp.eq_swap : cmp (f a) (f b) = (cmp (f b) (f a)).swap)
  isLE_trans {a _ c} hab hbc :=
    (TransCmp.isLE_trans hab hbc : (cmp (f a) (f c)).isLE = true)

instance Node.transCmp_compareSiblings (s : Store) : TransCmp (Node.compareSiblings s) :=
  have : TransCmp fun a b : Node => compareBool b.isAttribute a.isAttribute :=
    transCmp_on Node.isAttribute fun a b => compareBool b a
  have : TransCmp fun a b : Node => comparePlaces (a.position? s) (b.position? s) :=
    transCmp_on (Node.position? s) comparePlaces
  have : TransCmp fun a b : Node => a.index.compare b.index :=
    transCmp_on Node.index Index.compare
  inferInstanceAs (TransCmp (compareLex (fun a b : Node => compareBool b.isAttribute a.isAttribute)
    (compareLex (fun a b : Node => comparePlaces (a.position? s) (b.position? s))
      fun a b : Node => a.index.compare b.index)))

/-! ## Levels at which nodes look alike -/

namespace Node

variable {s : Store} {n m a b : Node}

theorem ne_of_compareSiblings (h : a.compareSiblings s b = .lt) : a ≠ b := by
  rintro rfl
  have hself : a.compareSiblings s a = .eq := ReflCmp.compare_self
  rw [hself] at h
  cases h

/-- The node is a slot that did not exist. -/
def isMissing : Node → Bool
  | missing .. => true
  | _ => false

/-- The nodes show the same, or one of them nothing, so that what stands below them is ordered
alike. -/
def Twins (s : Store) (n m : Node) : Prop :=
  n.end? s = m.end? s ∨ n.isMissing = true ∨ m.isMissing = true

theorem end?_of_isMissing (h : n.isMissing = true) : n.end? s = some .null := by
  cases n with
  | missing name index isAttribute => exact congrArg some (Store.select_null s index)
  | _ => simp [isMissing] at h

/-- Only missing slots stand below a missing slot. -/
theorem isMissing_of_below (hn : n.isMissing = true) (h : n.Below s a) : a.isMissing = true := by
  have hend := end?_of_isMissing (s := s) hn
  cases a with
  | slot holder => cases holder <;> simp [Below, hend, Holder.value] at h
  | items => simp [Below, hend] at h
  | missing => rfl
  | _ => exact h.elim

theorem eq_of_alike (h : a.alike b = true) :
    a.kind = b.kind ∧ a.index = b.index ∧ a.isAttribute = b.isAttribute ∧ a.name? = b.name? := by
  simpa [alike, and_assoc] using h

theorem compareSiblings_eq_iff :
    a.compareSiblings s b = .eq ↔
      a.isAttribute = b.isAttribute ∧ a.position? s = b.position? s ∧ a.index = b.index := by
  simp only [compareSiblings, Ordering.then_eq_eq, compareBool_eq_iff, comparePlaces_eq_iff,
    Index.compare_eq_iff]
  exact and_congr_left fun _ => eq_comm

/-- Slots and items below twins are taken from one value. -/
theorem end?_eq_of_twins (ht : Twins s n m) (ha : n.Below s a) (hb : m.Below s b)
    (ha' : a.isMissing = false) (hb' : b.isMissing = false) : n.end? s = m.end? s := by
  rcases ht with h | h | h
  · exact h
  · simp [isMissing_of_below h ha] at ha'
  · simp [isMissing_of_below h hb] at hb'

theorem holder_eq_of_twins {h h' : Holder} {name name' : QName} {i i' : Index} {x x' : Bool}
    (ht : Twins s n m) (ha : n.Below s (slot h name i x)) (hb : m.Below s (slot h' name' i' x')) :
    h = h' := by
  have hend := end?_eq_of_twins ht ha hb rfl rfl
  rw [show n.end? s = some h.value from ha, show m.end? s = some h'.value from hb] at hend
  simpa using congrArg (Option.bind · Value.holder?) hend

/-- Siblings that look alike stand at one place. -/
theorem compareSiblings_of_alike (ht : Twins s n m) (ha : n.Below s a) (hb : m.Below s b)
    (h : a.alike b = true) : a.compareSiblings s b = .eq := by
  obtain ⟨hk, hi, hat, hn⟩ := eq_of_alike h
  refine compareSiblings_eq_iff.2 ⟨hat, ?_, hi⟩
  cases a with
  | slot =>
    cases b with
    | slot =>
      obtain rfl := holder_eq_of_twins ht ha hb
      simp only [name?, Option.some.injEq] at hn
      simp [position?, hn]
    | _ => simp [kind] at hk
  | missing | items => cases b <;> first | rfl | simp [kind] at hk
  | _ => exact ha.elim

/-- Slots at one position of an object hold one value. -/
theorem slot_eq_of_position? {h : Holder} {k k' : String}
    (hpos : (s.slots h).position? k = (s.slots h).position? k') : s.slot h k = s.slot h k' := by
  rw [Store.slot, Store.slot, Table.get?_eq_of_position?_eq hpos]

/-- Siblings that stand at one place are twins. -/
theorem twins_of_compareSiblings (ht : Twins s n m) (ha : n.Below s a) (hb : m.Below s b)
    (h : a.compareSiblings s b = .eq) : Twins s a b := by
  obtain ⟨hat, hpos, hi⟩ := compareSiblings_eq_iff.1 h
  cases a with
  | slot holder name index isAttribute =>
    cases b with
    | slot holder' name' index' isAttribute' =>
      obtain rfl := holder_eq_of_twins ht ha hb
      have hslot := slot_eq_of_position? hpos
      simp only [Node.index] at hi
      exact .inl (by simp [end?, isLink, immediate, base, Node.index, hslot, hi])
    | items l =>
      have hend := end?_eq_of_twins ht ha hb rfl rfl
      rw [show n.end? s = some holder.value from ha, show m.end? s = some (.list l) from hb] at hend
      cases holder <;> simp [Holder.value] at hend
    | missing => exact .inr (.inr rfl)
    | _ => exact hb.elim
  | items l name index =>
    cases b with
    | slot holder =>
      have hend := end?_eq_of_twins ht ha hb rfl rfl
      rw [show n.end? s = some (.list l) from ha, show m.end? s = some holder.value from hb] at hend
      cases holder <;> simp [Holder.value] at hend
    | items l' name' index' =>
      have hend := end?_eq_of_twins ht ha hb rfl rfl
      rw [show n.end? s = some (.list l) from ha, show m.end? s = some (.list l') from hb] at hend
      obtain rfl : l = l' := by simpa using hend
      simp only [Node.index] at hi
      exact .inl (by simp [end?, isLink, immediate, hi])
    | missing => exact .inr (.inr rfl)
    | _ => exact hb.elim
  | missing => exact .inr (.inl rfl)
  | _ => exact ha.elim

/-- **Levels at which nodes look alike need not be told apart**: the walk down two chains comes to
their lexicographic order. -/
theorem compareChains_eq_compareLex {as bs : List Node} (ht : Twins s n m)
    (ha : List.IsChain (Below s) (n :: as)) (hb : List.IsChain (Below s) (m :: bs)) :
    compareChains s as bs = List.compareLex (compareSiblings s) as bs := by
  induction as generalizing n m bs with
  | nil => cases bs <;> rfl
  | cons a as ih =>
    cases bs with
    | nil => rfl
    | cons b bs =>
      obtain ⟨hna, ha⟩ := List.isChain_cons_cons.1 ha
      obtain ⟨hmb, hb⟩ := List.isChain_cons_cons.1 hb
      have hlevel : (if a.alike b then Ordering.eq else a.compareSiblings s b) =
          a.compareSiblings s b := by
        split
        · next h => exact (compareSiblings_of_alike ht hna hmb h).symm
        · rfl
      rw [compareChains, hlevel, List.compareLex_cons_cons]
      cases h : a.compareSiblings s b with
      | eq => exact ih (twins_of_compareSiblings ht hna hmb h) ha hb
      | _ => rfl

end Node

/-! ## Pointers -/

namespace Pointer

variable {s : Store} {p q : Pointer} {r : Node}

/-- The order of the roots' indices, then of the chains below them. -/
def compareLineages (s : Store) (p q : Pointer) : Ordering :=
  (p.root.index.compare q.root.index).then
    (List.compareLex (Node.compareSiblings s) p.lineage.tail q.lineage.tail)

instance : TransCmp (compareLineages s) :=
  have : TransCmp fun p q : Pointer => p.root.index.compare q.root.index :=
    transCmp_on (fun p : Pointer => p.root.index) Index.compare
  have : TransCmp fun p q : Pointer =>
      List.compareLex (Node.compareSiblings s) p.lineage.tail q.lineage.tail :=
    transCmp_on (fun p : Pointer => p.lineage.tail) (List.compareLex (Node.compareSiblings s))
  inferInstanceAs (TransCmp (compareLex (fun p q : Pointer => p.root.index.compare q.root.index)
    fun p q : Pointer =>
      List.compareLex (Node.compareSiblings s) p.lineage.tail q.lineage.tail))

theorem lineage_eq (p : Pointer) : p.lineage = p.nodes.reverse := rfl

theorem lineage_ne_nil (p : Pointer) : p.lineage ≠ [] := by simp [lineage, nodes, chain]

theorem root_eq_head (p : Pointer) : p.root = p.lineage.head p.lineage_ne_nil := by
  simp only [lineage, nodes, List.head_reverse, root]
  exact (List.getLast_map ..).symm

theorem lineage_of_parent? {x : Pointer} (h : p.parent? = some x) :
    p.lineage = x.lineage ++ [p.node] := by
  rw [lineage_eq, nodes_parent? h, List.reverse_cons, lineage_eq]

/-- Chains that begin alike are ordered by what follows. -/
theorem compareLex_append (l as bs : List Node) :
    List.compareLex (Node.compareSiblings s) (l ++ as) (l ++ bs) =
      List.compareLex (Node.compareSiblings s) as bs := by
  induction l with
  | nil => rfl
  | cons a l ih =>
    have hself : a.compareSiblings s a = .eq := ReflCmp.compare_self
    rw [List.cons_append, List.cons_append, List.compareLex_cons_cons, hself, ih, Ordering.eq_then]

/-- Pointers below one parent are ordered as siblings. -/
theorem compareLineages_of_parent? {x : Pointer} (hp : p.parent? = some x)
    (hq : q.parent? = some x) :
    p.compareLineages s q = p.node.compareSiblings s q.node := by
  obtain ⟨n, ns, hx⟩ := List.exists_cons_of_ne_nil x.lineage_ne_nil
  have hpl : p.lineage = n :: (ns ++ [p.node]) := by rw [lineage_of_parent? hp, hx]; rfl
  have hql : q.lineage = n :: (ns ++ [q.node]) := by rw [lineage_of_parent? hq, hx]; rfl
  have hroot : p.root = q.root := by simp only [root_eq_head, hpl, hql, List.head_cons]
  have hself : q.root.index.compare q.root.index = .eq := ReflCmp.compare_self
  rw [compareLineages, hroot, hself, hpl, hql,
    List.tail_cons, List.tail_cons, Ordering.eq_then, compareLex_append]
  simp [List.compareLex_cons_cons, List.compareLex_nil_nil]

/-- **Document order is the lexicographic order of chains.** -/
theorem order_eq_compareLineages (hp : Linked s r p.nodes) (hq : Linked s r q.nodes) :
    p.order s q = p.compareLineages s q := by
  rw [order]
  split
  · next h =>
    simp only [sameParent, Bool.and_eq_true, beq_iff_eq] at h
    obtain ⟨x, hx⟩ := Option.isSome_iff_exists.1 h.1
    exact (compareLineages_of_parent? hx (h.2 ▸ hx)).symm
  · obtain ⟨n, ns, hn, hvn, hcn⟩ := hp.exists_reverse
    obtain ⟨m, ms, hm, hvm, hcm⟩ := hq.exists_reverse
    rw [← lineage_eq] at hn hm
    simp only [compareLineages, root_eq_head, hn, hm, List.head_cons, List.tail_cons]
    have hlevel : (if n.alike m then Ordering.eq else n.index.compare m.index) =
        n.index.compare m.index := by
      split
      · next h => exact (Index.compare_eq_iff.2 (Node.eq_of_alike h).2.1).symm
      · rfl
    rw [hlevel]
    cases h : n.index.compare m.index with
    | eq =>
      have hnm : n = m := Node.eq_of_isVariant hvn hvm (Index.compare_eq_iff.1 h)
      exact Node.compareChains_eq_compareLex (.inl (by rw [hnm])) hcn hcm
    | _ => rfl

theorem origin_of_linked (hp : Linked s r p.nodes) : p.origin s = r.base s := by
  rw [origin]
  have hroot : p.root = p.nodes.getLast (by simp [nodes, chain]) := (List.getLast_map ..).symm
  rw [hroot]
  exact Node.base_of_isVariant (hp.getLast _)

theorem compare_of_linked (hp : Linked s r p.nodes) (hq : Linked s r q.nodes) :
    p.compare s q = .ok (p.compareLineages s q) := by
  rw [compare, sameRoot, origin_of_linked hp, origin_of_linked hq, Value.same_refl, if_pos rfl,
    order_eq_compareLineages hp hq]

/-- **Document order is a total preorder** on the pointers obtained from one root: comparing
succeeds, a pointer stands level with itself, the order of a pair is reversed with the pair, and
not coming after is transitive. -/
theorem compare_total_preorder {root a b c : Pointer} (hroot : Origin s root)
    (ha : Obtained s root a) (hb : Obtained s root b) (hc : Obtained s root c) :
    (∃ o, a.compare s b = .ok o ∧ b.compare s a = .ok o.swap) ∧ a.compare s a = .ok .eq ∧
      ∀ o o', a.compare s b = .ok o → o ≠ .gt → b.compare s c = .ok o' → o' ≠ .gt →
        ∃ o'', a.compare s c = .ok o'' ∧ o'' ≠ .gt := by
  have ha := ha.linked hroot
  have hb := hb.linked hroot
  have hc := hc.linked hroot
  rw [compare_of_linked ha hb, compare_of_linked hb ha, compare_of_linked ha ha,
    compare_of_linked hb hc, compare_of_linked ha hc]
  refine ⟨⟨_, rfl, ?_⟩, ?_, ?_⟩
  · exact congrArg Except.ok
      (OrientedCmp.eq_swap : b.compareLineages s a = (a.compareLineages s b).swap)
  · exact congrArg Except.ok (ReflCmp.compare_self : a.compareLineages s a = .eq)
  · rintro o o' ⟨⟩ ho ⟨⟩ ho'
    refine ⟨_, rfl, Ordering.isLE_iff_ne_gt.1 ?_⟩
    exact TransCmp.isLE_trans (Ordering.isLE_iff_ne_gt.2 ho) (Ordering.isLE_iff_ne_gt.2 ho')

/-- A map with a list and an empty slot. -/
def shelf : Store where
  maps := ⟨#[.ofList [("a", .list 0), ("b", .null)]]⟩
  lists := ⟨#[[.bool true, .bool false]]⟩

/-- The root of the shelf. -/
def shelfRoot : Pointer := { visit := { node := .map 0 none, occasion := {} } }

/-- The second element of the list, an element far behind it, and a slot of a slot that does not
exist. -/
theorem compare_total_preorder_shelf :
    let a := shelfRoot.child {} (.slot (.map 0) (.bare "a") (.element 1) false)
    let b := shelfRoot.child {} (.slot (.map 0) (.bare "a") (.element 70) false)
    let c := (shelfRoot.child { trail := [0] } (.missing (.bare "c") .whole false)).child
      { trail := [0, 1] } (.missing (.bare "d") .whole true)
    (∃ o, a.compare shelf b = .ok o ∧ b.compare shelf a = .ok o.swap) ∧
      a.compare shelf a = .ok .eq ∧
      ∀ o o', a.compare shelf b = .ok o → o ≠ .gt → b.compare shelf c = .ok o' → o' ≠ .gt →
        ∃ o'', a.compare shelf c = .ok o'' ∧ o'' ≠ .gt := by
  intro a b c
  have hvalue : Registry.standard.root shelf (.map 0) {} = .ok shelfRoot := rfl
  have hroot : Origin shelf shelfRoot := .value (.refl _) hvalue
  have hchildren : ∃ qs, shelfRoot.children shelf .standard = .ok qs ∧ a ∈ qs :=
    ⟨[_, a, _], by rfl, by simp⟩
  obtain ⟨qs, hqs, hq⟩ := hchildren
  have ha : Obtained shelf shelfRoot a := .child .root (.refl _) hqs hq
  have hmoved : a.atIndex? shelf (.element 70) = some b := rfl
  have hb : Obtained shelf shelfRoot b := .atIndex ha (.refl _) hmoved
  let env : Environment :=
    { root := shelfRoot, locale := {}, lenient := false, own := { scope := 0 } }
  have hresolved : (env.resolve .standard {} shelfRoot
      [⟨.bare "c", false, none⟩, ⟨.bare "d", true, none⟩]).result shelf = (.ok c, shelf) := rfl
  have hc : Obtained shelf shelfRoot c := .resolved .root (.refl _) (by simp) hresolved
  exact compare_total_preorder hroot ha hb hc

end Pointer

end PathQuery
