import PathQuery.Proofs.Guises
import PathQuery.Proofs.Trees

/-!
# Nodes in another guise

The node that stands for a node in the other guise of a graph, and what the two show: the same name,
index and position, and values that stand for one another.

* names: `Node.recast`, `Node.IsOld`; `Node.IsStart`, `Node.IsStep`, `Node.IsTraced`.
* **`immediate_paired`**, **`shown_alike`**: a node and its counterpart show counterparts, or fail
  alike. `pathBelow_recast`, `alike_recast`, `compareSiblings_recast`: they have one text and one
  place.
-/

namespace PathQuery

/-! ## Recasting nodes -/

namespace Node

variable {as : Recasting}

/-- The node with a bean in place of a map. -/
def recast (as : Recasting) : Node → Node
  | slot h name index isAttribute => slot (h.recast as) name index isAttribute
  | map id name => ((Value.map id).recast as).node name
  | node => node

/-- The node is not about a bean that stands for a map. -/
def IsOld (as : Recasting) : Node → Prop
  | slot h .. => h.value.IsOld as
  | bean id _ => (Value.bean id).IsOld as
  | _ => True

theorem recast_node (v : Value) (name : Option QName) :
    (v.node name).recast as = (v.recast as).node name := by cases v <;> rfl

/-- What does not tell beans from maps stays as it is. -/
theorem apply_recast {β : Type} {f : Node → β}
    (hslot : ∀ h h' name index isAttribute,
      f (slot h' name index isAttribute) = f (slot h name index isAttribute))
    (hmap : ∀ m b name, f (bean b name) = f (map m name)) (n : Node) : f (n.recast as) = f n := by
  cases n with
  | slot h name index isAttribute => exact hslot _ _ _ _ _
  | map m name =>
    exact Value.apply_recast (f := fun v => f (v.node name)) (fun m b => hmap m b name) (.map m)
  | _ => rfl

variable (n : Node)

@[simp] theorem name?_recast : (n.recast as).name? = n.name? :=
  apply_recast (fun _ _ _ _ _ => rfl) (fun _ _ _ => rfl) n

@[simp] theorem index_recast : (n.recast as).index = n.index :=
  apply_recast (fun _ _ _ _ _ => rfl) (fun _ _ _ => rfl) n

@[simp] theorem isAttribute_recast : (n.recast as).isAttribute = n.isAttribute :=
  apply_recast (fun _ _ _ _ _ => rfl) (fun _ _ _ => rfl) n

@[simp] theorem isContainer_recast : (n.recast as).isContainer = n.isContainer :=
  apply_recast (fun _ _ _ _ _ => rfl) (fun _ _ _ => rfl) n

@[simp] theorem isLink_recast : (n.recast as).isLink = n.isLink :=
  apply_recast (fun _ _ _ _ _ => rfl) (fun _ _ _ => rfl) n

theorem atIndex?_recast (i : Index) :
    (n.recast as).atIndex? i = (n.atIndex? i).map (recast as) := by
  cases n with
  | map m name =>
    exact Value.apply_recast (f := fun v => (v.node name).atIndex? i) (fun _ _ => rfl) (.map m)
  | _ => rfl

variable {n}

theorem recast_cases (as : Recasting) (n : Node) :
    (∃ h name index isAttribute, n = slot h name index isAttribute) ∨
      (n.recast as = n ∧ n.kind ≠ "property") ∨
      ∃ m b name, n = map m name ∧ as.bean? m = some b ∧ n.recast as = bean b name := by
  cases n with
  | slot h name index isAttribute => exact .inl ⟨h, name, index, isAttribute, rfl⟩
  | map m name =>
    rcases Value.recast_cases as (.map m) with hv | ⟨m', b, hm, hb, hv⟩
    · exact .inr (.inl ⟨by rw [recast, hv]; rfl, by simp [kind]⟩)
    · obtain rfl := Value.map.inj hm
      exact .inr (.inr ⟨m, b, name, rfl, hb, by rw [recast, hv]; rfl⟩)
  | _ => exact .inr (.inl ⟨rfl, by simp [kind]⟩)

/-- Old nodes are told apart after recasting as before. -/
theorem recast_injective {m : Node} (hn : n.IsOld as) (hm : m.IsOld as)
    (heq : n.recast as = m.recast as) : n = m := by
  rcases recast_cases as n with ⟨h, name, i, a, rfl⟩ | ⟨hn', hk⟩ | ⟨id, b, name, rfl, hb, hn'⟩ <;>
    rcases recast_cases as m with ⟨h', name', i', a', rfl⟩ | ⟨hm', hk'⟩ |
      ⟨id', b', name', rfl, hb', hm'⟩
  · obtain ⟨hh, rfl, rfl, rfl⟩ := Node.slot.inj heq
    have hvalue : h.value = h'.value := Value.recast_injective hn hm <| by
      rw [Value.recast_value, Value.recast_value, hh]
    rw [Holder.value_injective hvalue]
  · rw [hm'] at heq
    exact absurd (heq ▸ rfl : m.kind = "property") hk'
  · rw [hm'] at heq
    cases heq
  · rw [hn'] at heq
    exact absurd (heq ▸ rfl : n.kind = "property") hk
  · rwa [hn', hm'] at heq
  · rw [hn', hm'] at heq
    subst heq
    exact absurd rfl (hn id' b' hb')
  · rw [hn'] at heq
    cases heq
  · rw [hn', hm'] at heq
    subst heq
    exact absurd rfl (hm id b hb)
  · rw [hn', hm'] at heq
    obtain ⟨rfl, rfl⟩ := Node.bean.inj heq
    rw [as.injective hb hb']

end Node

/-! ## What stands in slots and lists -/

namespace Store

variable {as : Recasting} {s t : Store} {root v w : Value} (g : Guise as s t root)

theorem paired_getD {vs ws : List Value} (h : List.Forall₂ (Paired as s t root) vs ws) (i : Nat) :
    Paired as s t root ((vs[i]?).getD .null) ((ws[i]?).getD .null) := by
  induction h generalizing i with
  | nil => exact paired_of_not_isObject rfl
  | cons hv _ ih =>
    cases i with
    | zero => exact hv
    | succ i => exact ih i

include g

theorem Paired.slot {k : Holder} (h : Paired as s t root k.value (k.recast as).value)
    (name : String) : Paired as s t root (s.slot k name) (t.slot (k.recast as) name) := by
  have hget := (h.slots g rfl rfl).get? name
  rw [Store.slot, Store.slot]
  generalize (s.slots k).get? name = x at hget ⊢
  generalize (t.slots (k.recast as)).get? name = y at hget ⊢
  cases hget with
  | none => exact paired_of_not_isObject rfl
  | some hv => exact hv

/-- Lists stand for lists. -/
theorem Paired.items? (h : Paired as s t root v w) :
    Option.Rel (List.Forall₂ (Paired as s t root)) (s.items? v) (t.items? w) := by
  obtain ⟨h, heq⟩ := h.unwrap g
  rw [Store.items?, Store.items?]
  generalize s.unwrap v = v at h heq ⊢
  generalize t.unwrap w = w at h heq ⊢
  subst heq
  cases v with
  | list l => exact .some (h.items g rfl rfl)
  | map m =>
    rcases Value.recast_cases as (.map m) with hm | ⟨m', b, -, -, hm⟩ <;> rw [hm] <;> exact .none
  | _ => exact .none

theorem Paired.select (h : Paired as s t root v w) (index : Index) :
    Paired as s t root (s.select v index) (t.select w index) := by
  cases index with
  | whole => exact h
  | element i =>
    have hitems := h.items? g
    simp only [Store.select]
    cases (Index.element i).place? with
    | none => exact paired_of_not_isObject rfl
    | some k =>
      generalize s.items? v = x at hitems ⊢
      generalize t.items? w = y at hitems ⊢
      cases hitems with
      | none =>
        dsimp only
        split
        · exact h
        · exact paired_of_not_isObject rfl
      | some hitems => exact paired_getD hitems k

omit g in
theorem Within.reaches (h : s.Within root v) (hw : s.Reaches v w) : s.Within root w :=
  hw.induct (P := s.Within root) h fun _ hu _ hu' => hu.held hu'

/-- Pointers show the values, and the one stands for the other without any new cells. -/
structure Shows (as : Recasting) (s t : Store) (root v w : Value) : Prop where
  paired : Paired as s t root v w
  eq : w = v.recast as
  ne_cell (c : Nat) : v ≠ .cell c
  ne_foreign (f : Nat) : v ≠ .foreign f

omit g in
theorem Shows.congr {s' t' : Store} (hs : s.SameGraph s') (ht : t.SameGraph t')
    (h : Shows as s t root v w) : Shows as s' t' root v w :=
  ⟨h.paired.congr hs ht, h.eq, h.ne_cell, h.ne_foreign⟩

end Store

/-! ## Nodes of a graph -/

namespace Node

open Store (Guise Paired paired_root paired_of_not_isObject)

variable {as : Recasting} {s t : Store} {root v : Value}

/-- A node that a chain starts with: that of the root of the graph, an item of it if it is a list,
or a scalar that was computed. -/
inductive IsStart (root : Value) : Node → Prop
  | value (h : ∀ f, root ≠ .foreign f) : IsStart root (root.node none)
  | item {l : Nat} (h : root = .list l) (i : Int) : IsStart root (items l none (.element i))
  | scalar {v : Value} (h : v.isScalar = true) : IsStart root (leaf v none)

/-- A node that a chain goes on with: a slot or an item of an object of the graph. -/
inductive IsStep (as : Recasting) (s t : Store) (root : Value) : Node → Prop
  | slot {h : Holder} (hh : Paired as s t root h.value (h.recast as).value) (name : QName)
    (index : Index) (isAttribute : Bool) : IsStep as s t root (slot h name index isAttribute)
  | items {l : Nat} (hl : Paired as s t root (.list l) (.list l)) (name : Option QName)
    (index : Index) : IsStep as s t root (items l name index)

theorem IsStep.congr {s' t' : Store} {n : Node} (hs : s.SameGraph s') (ht : t.SameGraph t')
    (h : n.IsStep as s t root) : n.IsStep as s' t' root := by
  cases h with
  | slot hh name index isAttribute => exact .slot (hh.congr hs ht) name index isAttribute
  | items hl name index => exact .items (hl.congr hs ht) name index

/-- The node is on a chain through the graph. -/
def IsTraced (as : Recasting) (s t : Store) (root : Value) (n : Node) : Prop :=
  n.IsStart root ∨ n.IsStep as s t root

variable {n m : Node}

theorem IsTraced.isPlain (h : n.IsTraced as s t root) : n.IsPlain := by
  rcases h with (h | _ | h) | (_ | _)
  · cases root <;> first | trivial | rfl | exact absurd rfl (h _)
  · trivial
  · exact h
  · trivial
  · trivial

theorem isPlain_recast (h : n.IsPlain) : (n.recast as).IsPlain := by
  cases n with
  | map m name =>
    exact (Value.apply_recast (f := fun v => (v.node name).IsPlain) (fun _ _ => rfl) (.map m)).mpr h
  | _ => exact h

variable (g : Guise as s t root)

include g

theorem IsStart.isOld (h : n.IsStart root) : n.IsOld as := by
  cases h with
  | value => cases root <;> first | trivial | exact (paired_root as s t _).isOld g
  | _ => trivial

theorem IsStep.isOld (h : n.IsStep as s t root) : n.IsOld as := by
  cases h with
  | slot hh => exact hh.isOld g
  | items => trivial

omit g in
theorem base_node {v : Value} (name : Option QName) (h : ∀ c, v ≠ .cell c) :
    (v.node name).base s = v := by
  cases v <;> first | rfl | exact absurd rfl (h _)

omit g in
theorem immediate_node_eq_base (v : Value) (name : Option QName) :
    (v.node name).immediate s = (v.node name).base s := by cases v <;> rfl

/-- What a chain starts with stands for what the other chain starts with, and is in no new cell. -/
theorem IsStart.base_recast (h : n.IsStart root) :
    Paired as s t root (n.base s) ((n.recast as).base t) ∧
      (n.recast as).base t = (n.base s).recast as := by
  have hroot := paired_root as s t root
  cases h with
  | value h =>
    rw [recast_node]
    by_cases hc : ∃ c, root = .cell c
    · obtain ⟨c, rfl⟩ := hc
      exact ⟨hroot.cell g rfl rfl, g.cell (hroot.has g rfl)⟩
    · have hc' : ∀ c, root ≠ .cell c := fun c h => hc ⟨c, h⟩
      have hc'' : ∀ c, root.recast as ≠ .cell c := fun c h =>
        hc' c ((Value.recast_eq_iff rfl).1 h)
      rw [base_node none hc', base_node none hc'']
      exact ⟨hroot, rfl⟩
  | item h i =>
    subst h
    exact ⟨hroot, rfl⟩
  | @scalar v h =>
    have hobject : v.isObject = false := by cases v <;> first | rfl | cases h
    exact ⟨paired_of_not_isObject hobject, (Value.recast_of_not_isObject hobject).symm⟩

theorem immediate_items_paired {l : Nat} (hl : Paired as s t root (.list l) (.list l))
    (name : Option QName) (index : Index) :
    Paired as s t root ((items l name index).immediate s) ((items l name index).immediate t) := by
  cases index with
  | whole => exact hl
  | element i =>
    simp only [immediate]
    cases (Index.element i).place? with
    | none => exact paired_of_not_isObject rfl
    | some k => exact Store.paired_getD (hl.items g rfl rfl) k

/-- **A node and its counterpart show values that stand for one another.** -/
theorem IsTraced.immediate_paired (h : n.IsTraced as s t root) :
    Paired as s t root (n.immediate s) ((n.recast as).immediate t) := by
  rcases h with h | (⟨hh, name, index, isAttribute⟩ | ⟨hl, name, index⟩)
  · cases h with
    | value h =>
      have hbase := (IsStart.value h).base_recast g
      rw [recast_node] at hbase ⊢
      rw [immediate_node_eq_base, immediate_node_eq_base]
      exact hbase.1
    | item h i =>
      subst h
      exact immediate_items_paired g (paired_root as s t _) none _
    | scalar h => exact ((IsStart.scalar h).base_recast g).1
  · exact (hh.slot g name.text).select g index
  · exact immediate_items_paired g hl name index

/-- Where nothing has to be followed, the counterpart shows just what stands for the value. -/
theorem IsTraced.immediate_recast (h : n.IsTraced as s t root) (hlink : n.isLink = false) :
    (n.recast as).immediate t = (n.immediate s).recast as ∧ (∀ c, n.immediate s ≠ .cell c) ∧
      ∀ f, n.immediate s ≠ .foreign f := by
  rcases h with h | (⟨hh, name, index, isAttribute⟩ | ⟨hl, name, index⟩)
  · cases h with
    | value h =>
      have hbase := (IsStart.value h).base_recast g
      rw [recast_node] at hbase ⊢
      rw [immediate_node_eq_base, immediate_node_eq_base]
      have hc : ∀ c, root ≠ .cell c := by
        rintro c rfl
        cases hlink
      rw [base_node none hc] at hbase ⊢
      exact ⟨hbase.2, hc, h⟩
    | item => cases hlink
    | @scalar v h =>
      refine ⟨((IsStart.scalar h).base_recast g).2, ?_, ?_⟩ <;> rintro _ rfl <;> cases h
  · cases hlink
  · have hwhole : index = .whole := by simpa [isLink] using hlink
    subst hwhole
    exact ⟨rfl, fun _ => Value.noConfusion, fun _ => Value.noConfusion⟩

/-- **What nodes show stands for what their counterparts show**, or both fail alike. -/
theorem IsTraced.shown_recast (h : n.IsTraced as s t root) :
    (n.recast as).shown t = (n.shown s).map (Option.map (Value.recast as)) := by
  rw [shown, shown, isLink_recast]
  cases hlink : n.isLink with
  | true =>
    have himm := h.immediate_paired g
    exact (g.ends himm.left himm.right himm.coats).2
  | false =>
    rw [(h.immediate_recast g hlink).1]
    rfl

omit g in
/-- What a node shows can be reached if what it holds can. -/
theorem within_of_shown {u : Value} (hroot : s.Within u (n.immediate s))
    (h : n.shown s = .ok (some v)) : s.Within u v := by
  rw [shown] at h
  split at h
  · exact hroot.reaches (Store.endOf_eq_some h).2.2
  · exact Option.some.inj (Except.ok.inj h) ▸ hroot

/-- **What nodes show stands for what their counterparts show**, or both fail alike. -/
theorem IsTraced.shown_alike (h : n.IsTraced as s t root) :
    Except.Alike (Option.Rel (Store.Shows as s t root)) (n.shown s) ((n.recast as).shown t) := by
  have himm := h.immediate_paired g
  have heq := h.shown_recast g
  cases hs : n.shown s with
  | error e =>
    rw [hs] at heq
    rw [heq]
    exact rfl
  | ok v? =>
    rw [hs] at heq
    rw [heq]
    cases v? with
    | none => exact .none
    | some v =>
      have hshown : (∀ c, v ≠ .cell c) ∧ ∀ f, v ≠ .foreign f := by
        cases hlink : n.isLink with
        | true =>
          rw [shown, hlink] at hs
          exact ⟨(Store.endOf_eq_some hs).1, (Store.endOf_eq_some hs).2.1⟩
        | false =>
          rw [shown, hlink] at hs
          obtain rfl := Option.some.inj (Except.ok.inj hs)
          exact (h.immediate_recast g hlink).2
      exact .some ⟨⟨within_of_shown himm.left hs, within_of_shown himm.right heq, .bare⟩, rfl,
        hshown.1, hshown.2⟩

/-! ### Places and texts -/

omit g in
/-- What is neither about the objects of a store nor about the kind of an object. -/
theorem apply_recast_node {β : Type} {f : Store → Node → β}
    (hmap : ∀ m b name, f t (bean b name) = f t (map m name))
    (hsame : ∀ v, f t (Value.node v none) = f s (Value.node v none)) (v : Value) :
    f t ((v.node none).recast as) = f s (v.node none) := by
  rw [recast_node, ← hsame]
  exact Value.apply_recast (f := fun v => f t (v.node none)) (fun m b => hmap m b none) v

theorem IsTraced.isCollection_recast (h : n.IsTraced as s t root) :
    (n.recast as).isCollection t = n.isCollection s := by
  rcases h with (h | _ | _) | (⟨hh, name, index, isAttribute⟩ | _)
  · exact apply_recast_node (fun _ _ _ => rfl) (fun v => by cases v <;> rfl) root
  · rfl
  · rfl
  · have hitems := (hh.slot g name.text).items? g
    show (t.items? (t.slot _ name.text)).isSome = (s.items? (s.slot _ name.text)).isSome
    generalize s.items? (s.slot _ name.text) = x at hitems ⊢
    generalize t.items? (t.slot _ name.text) = y at hitems ⊢
    cases hitems <;> rfl
  · rfl

theorem length_items {l : Nat} (hl : Paired as s t root (.list l) (.list l)) :
    (t.lists.get l).length = (s.lists.get l).length := (hl.items g rfl rfl).length_eq.symm

theorem IsTraced.length_recast (h : n.IsTraced as s t root) :
    (n.recast as).length t = n.length s := by
  have hroot := paired_root as s t root
  rcases h with (h | ⟨rfl, i⟩ | _) | (⟨hh, name, index, isAttribute⟩ | ⟨hl, name, index⟩)
  · cases root with
    | list l => exact length_items g hroot
    | map m =>
      exact Value.apply_recast (f := fun v => (v.node none).length t) (fun _ _ => rfl) (.map m)
    | _ => rfl
  · exact length_items g hroot
  · rfl
  · obtain ⟨hv, heq⟩ := (hh.slot g name.text).unwrap g
    simp only [recast, length, base]
    rw [heq] at hv ⊢
    generalize s.unwrap (s.slot _ name.text) = v at hv ⊢
    cases v with
    | list l => exact length_items g hv
    | map m => rcases Value.recast_cases as (.map m) with hm | ⟨_, _, -, -, hm⟩ <;> rw [hm]
    | _ => rfl
  · exact length_items g hl

theorem IsTraced.position?_recast (h : n.IsTraced as s t root) :
    (n.recast as).position? t = n.position? s := by
  rcases h with (h | _ | _) | (⟨hh, name, index, isAttribute⟩ | _)
  · exact apply_recast_node (fun _ _ _ => rfl) (fun v => by cases v <;> rfl) root
  · rfl
  · rfl
  · show (t.slots _).position? name.text = (s.slots _).position? name.text
    rw [Table.position?, Table.position?, (hh.slots g rfl rfl).keys_eq]
  · rfl

theorem IsTraced.pathBelow_recast (h : n.IsTraced as s t root) (path : String) :
    (n.recast as).pathBelow t path = n.pathBelow s path := by
  have hcollection := h.isCollection_recast g
  rcases h with (h | _ | _) | (⟨hh, name, index, isAttribute⟩ | _)
  · exact apply_recast_node (f := fun s n => n.pathBelow s path) (fun _ _ _ => rfl)
      (fun v => by cases v <;> rfl) root
  · rfl
  · rfl
  · simp only [recast] at hcollection
    simp only [recast, pathBelow, hcollection]
  · rfl

theorem IsTraced.compareSiblings_recast (hn : n.IsTraced as s t root)
    (hm : m.IsTraced as s t root) :
    (n.recast as).compareSiblings t (m.recast as) = n.compareSiblings s m := by
  simp only [compareSiblings, isAttribute_recast, index_recast, hn.position?_recast g,
    hm.position?_recast g]

/-- The node is that of an object with slots. -/
def isObject : Node → Bool
  | map .. | bean .. => true
  | _ => false

omit g in
theorem isObject_eq (n : Node) : n.isObject = (n.kind == "map" || n.kind == "bean") := by
  cases n <;> rfl

omit g in
theorem kind_recast (h : n.isObject = false) : (n.recast as).kind = n.kind := by
  cases n <;> first | rfl | cases h

omit g in
theorem isObject_recast (n : Node) : (n.recast as).isObject = n.isObject :=
  apply_recast (fun _ _ _ _ _ => rfl) (fun _ _ _ => rfl) n

omit g in
/-- The only object that stands on a chain is the root. -/
theorem IsTraced.eq_root (h : n.IsTraced as s t root) (hobject : n.isObject = true) :
    n = root.node none := by
  rcases h with (_ | _ | _) | (_ | _) <;> first | rfl | cases hobject

omit g in
/-- Nodes of a chain look alike when their counterparts do. -/
theorem IsTraced.alike_recast (hn : n.IsTraced as s t root) (hm : m.IsTraced as s t root) :
    (n.recast as).alike (m.recast as) = n.alike m := by
  have hkind : ((n.recast as).kind == (m.recast as).kind) = (n.kind == m.kind) := by
    have hne {n m : Node} (h : n.isObject ≠ m.isObject) : (n.kind == m.kind) = false := by
      rw [beq_eq_false_iff_ne]
      intro hk
      rw [isObject_eq, isObject_eq, hk] at h
      exact h rfl
    by_cases h : n.isObject = m.isObject
    · cases hobject : n.isObject with
      | true =>
        rw [hn.eq_root hobject, hm.eq_root (h ▸ hobject), beq_self_eq_true, beq_self_eq_true]
      | false => rw [kind_recast hobject, kind_recast (h ▸ hobject)]
    · rw [hne h, hne (by rwa [isObject_recast, isObject_recast])]
  rw [alike, alike, hkind, index_recast, index_recast, isAttribute_recast, isAttribute_recast,
    name?_recast, name?_recast]

end Node

end PathQuery
