import PathQuery.Proofs.Tables
import PathQuery.Proofs.Values

/-!
# What is found below a pointer

Children, attributes and slots under the standard registry, as relations between a pointer and the
pointers found from it.

* names: `Node.Below`, `Pointer.IsChild`.
* **`isChild_of_mem`**: children are slots of the object in a pointer, or of an object in one of the
  lists that it leads to. Every other fact about children is an induction on that relation.
-/

namespace PathQuery

namespace Holder

@[simp] theorem holder?_value (h : Holder) : h.value.holder? = some h := by cases h <;> rfl

theorem value_of_holder? {v : Value} {h : Holder} (hv : v.holder? = some h) : v = h.value := by
  cases v <;> simp_all [Value.holder?] <;> subst hv <;> rfl

theorem value_injective {h h' : Holder} (hv : h.value = h'.value) : h = h' := by
  simpa using congrArg Value.holder? hv

theorem value_ne_null (h : Holder) : h.value ≠ .null := by cases h <;> nofun

theorem value_ne_list (h : Holder) (l : Nat) : h.value ≠ .list l := by cases h <;> nofun

theorem isPlain_node (h : Holder) : (h.value.node none).IsPlain := by cases h <;> trivial

end Holder

namespace Store

variable {s : Store} {h : Holder}

/-- The children of an object are slots of it, unqualified and no attributes. -/
theorem mem_slotNodes {name : String} {v : Value} {node : Node} (hn : node ∈ s.slotNodes h name v) :
    ∃ index, node = .slot h (.bare name) index false := by
  rw [slotNodes] at hn
  split at hn
  · obtain ⟨i, -, rfl⟩ := List.mem_map.1 hn
    exact ⟨_, rfl⟩
  · exact ⟨_, List.mem_singleton.1 hn⟩

theorem mem_childNodes {node : Node} :
    node ∈ s.childNodes h ↔
      ∃ name v, (name, v) ∈ (s.slots h).entries ∧ node ∈ s.slotNodes h name v := by
  simp [childNodes, List.mem_flatMap]

/-- What is chosen by name among the children of an object are the nodes of one slot. -/
theorem filter_map_childNodes {α : Type} {f : Node → α} {test : α → Bool} {n : String}
    (htest : ∀ name index, test (f (.slot h (.bare name) index false)) = decide (name = n)) :
    ((s.childNodes h).map f).filter test =
      match (s.slots h).get? n with
      | some w => (s.slotNodes h n w).map f
      | none => [] := by
  have hslot (name : String) (w : Value) :
      ((s.slotNodes h name w).map f).filter test =
        if name = n then (s.slotNodes h name w).map f else [] := by
    have hnodes : ∀ a ∈ (s.slotNodes h name w).map f, test a = decide (name = n) := by
      intro a ha
      obtain ⟨node, hnode, rfl⟩ := List.mem_map.1 ha
      obtain ⟨index, rfl⟩ := mem_slotNodes hnode
      exact htest name index
    rw [List.filter_congr hnodes]
    split <;> simp [*]
  rw [childNodes, List.map_flatMap, List.filter_flatMap]
  cases hentry : (s.slots h).get? n with
  | some w =>
    rw [Table.flatMap_of_get? hentry, hslot, if_pos rfl]
    intro e he
    rw [hslot, if_neg he]
  | none =>
    refine List.flatMap_eq_nil_iff.2 fun e he => ?_
    have hne : e.1 ≠ n := by
      rintro rfl
      exact Table.get?_eq_none_iff.1 hentry (List.mem_map_of_mem he)
    rw [hslot, if_neg hne]

theorem mem_attributeNodes {node : Node} (hn : node ∈ s.attributeNodes h) :
    ∃ name, node = .slot h (.bare name) .whole true := by
  obtain ⟨name, -, rfl⟩ := List.mem_map.1 hn
  exact ⟨name, rfl⟩

end Store

namespace Pointer

variable {s : Store}

/-- One item of a list is found below its owner, or the owner itself moves to it. -/
theorem item_cases (p : Pointer) (l : Nat) (name : Option QName) (i : Nat) :
    p.isWholeCollection s = false ∧
        p.item s l name i = p.child s.now (.items l name (.element i)) ∨
      p.isWholeCollection s = true ∧ p.node.index = .whole ∧
        ∃ node, p.node.atIndex? (.element i) = some node ∧ (p.item s l name i).node = node ∧
          (p.item s l name i).above = p.above ∧
          p.atIndex? s (.element i) = some (p.item s l name i) := by
  cases hw : p.isWholeCollection s with
  | false => exact .inl ⟨rfl, by simp [item, hw]⟩
  | true =>
    refine .inr ⟨rfl, ?_⟩
    simp only [isWholeCollection, Bool.and_eq_true, beq_iff_eq] at hw
    cases hn : p.node <;>
      simp_all [Node.isCollection, Node.atIndex?, item, atIndex?, isWholeCollection] <;> rfl

/-- The second pointer is a child of the first. -/
inductive IsChild (s : Store) : Pointer → Pointer → Prop
  /-- A slot of the object in the pointer. -/
  | slot {p : Pointer} {h : Holder} {node : Node} (hend : p.node.end? s = some h.value)
      (hnode : node ∈ s.childNodes h) : IsChild s p (p.child s.now node)
  /-- A child of an item of the list in the pointer. -/
  | item {p q : Pointer} {l i : Nat} (hend : p.node.end? s = some (.list l))
      (hi : i < (s.lists.get l).length) (hq : IsChild s (p.item s l p.node.name? i) q) :
      IsChild s p q

theorem isPlain_item (p : Pointer) (l : Nat) (name : Option QName) (i : Nat) :
    (p.item s l name i).node.IsPlain := by
  rcases item_cases (s := s) p l name i with ⟨-, h⟩ | ⟨-, -, node, hn, h, -, -⟩
  · rw [h]
    trivial
  · rw [h]
    cases hp : p.node <;> simp_all [Node.atIndex?] <;> subst hn <;> trivial

/-- What the children of a pointer are children of, one level of lists down. -/
theorem isChild_of_mem_with {p q : Pointer} {cs : List Pointer}
    {inner : Pointer → Except PathError (List Pointer)} (hp : p.node.IsPlain)
    (hinner : ∀ {p q cs}, p.node.IsPlain → inner p = .ok cs → q ∈ cs → IsChild s p q)
    (h : p.childrenWith s .standard inner = .ok cs) (hq : q ∈ cs) : IsChild s p q := by
  rw [childrenWith_eq hp] at h
  obtain ⟨v, hv, h⟩ := Except.bind_eq_ok_iff.1 h
  rw [value_eq_ok_iff hp] at hv
  have hslots (hcs : (v.holder?.map s.childNodes |>.getD [] |>.map (p.child s.now)) = cs) :
      IsChild s p q := by
    subst hcs
    obtain ⟨node, hnode, rfl⟩ := List.mem_map.1 hq
    cases hh : v.holder? with
    | none => simp [hh] at hnode
    | some h =>
      rw [Holder.value_of_holder? hh] at hv
      exact .slot hv (by simpa [hh] using hnode)
  cases v with
  | list l =>
    obtain ⟨css, hcss, rfl⟩ := Except.map_eq_ok_iff.1 h
    obtain ⟨item, hitem, ds, hds, hqd⟩ := (Except.mem_flatten_of_mapM hcss).1 hq
    obtain ⟨i, hi, rfl⟩ := List.mem_map.1 hitem
    exact .item hv (List.mem_range.1 hi) (hinner (isPlain_item ..) hds hqd)
  | _ => exact hslots (Except.ok.inj h)

theorem isChild_of_mem_upTo {n : Nat} {p q : Pointer} {cs : List Pointer} (hp : p.node.IsPlain)
    (h : p.childrenUpTo s .standard n = .ok cs) (hq : q ∈ cs) : IsChild s p q := by
  induction n generalizing p q cs with
  | zero => exact isChild_of_mem_with hp (by rintro _ _ _ - ⟨⟩ ⟨⟩) h hq
  | succ n ih => exact isChild_of_mem_with hp ih h hq

/-- **Children are slots of an object in the pointer or in the lists that it leads to.** -/
theorem isChild_of_mem {p q : Pointer} {cs : List Pointer} (hp : p.node.IsPlain)
    (h : p.children s .standard = .ok cs) (hq : q ∈ cs) : IsChild s p q :=
  isChild_of_mem_upTo hp h hq

end Pointer

end PathQuery
