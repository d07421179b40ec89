import Mathlib.Data.List.Nodup
import PathQuery.Proofs.ForwardAxes
import PathQuery.Proofs.MadeNodes
import PathQuery.Proofs.ReadAfterWrite

/-!
# Elements that are created

To create an element of a slot is to set it, be there such a slot or not. What that leaves depends
on what the slot held: a list gets long enough, nothing becomes a list or the bare value, and a bare
value does not become a list.

* names: `putItems`, `Store.withSlot`, `Store.withItems`.
* **`putItems_perm`**: items put at different places are the same in any order.
* What setting an element leaves: `setSlot_listed`, `setSlot_first`, `setSlot_empty`,
  `setSlot_bare`.
* **`result_createAndSet_element`**: to create an element of a map's slot is to set it.
-/

namespace PathQuery

/-! ## Items -/

section Items

variable (items : List Value) {i j : Nat} (v w : Value)

theorem getElem?_putItem_eq (i j : Nat) : (putItem items i v)[j]? =
    if j = i then some v
    else if j < max items.length (i + 1) then some (items.getD j .null) else none := by
  split
  · next h => rw [h, getElem?_putItem]
  · next h =>
    split
    · next hlt => exact (itemsAgreeBut_putItem items i v).others j h (by rwa [length_putItem])
    · next hge => rw [List.getElem?_eq_none (by rw [length_putItem]; omega)]

theorem getD_putItem (i j : Nat) :
    (putItem items i v).getD j .null = if j = i then v else items.getD j .null := by
  rw [List.getD_eq_getElem?_getD, getElem?_putItem_eq]
  split
  · rfl
  · split
    · rfl
    · next hge => rw [List.getD_eq_getElem?_getD, List.getElem?_eq_none (by omega)]

/-- Two places can be filled in either order. -/
theorem putItem_comm (hij : i ≠ j) :
    putItem (putItem items i v) j w = putItem (putItem items j w) i v := by
  apply List.ext_getElem?
  intro x
  simp only [getElem?_putItem_eq, getD_putItem, length_putItem, Nat.max_assoc,
    Nat.max_comm (i + 1)]
  by_cases hi : x = i
  · have hj : x ≠ j := hi ▸ hij
    rw [if_neg hj, if_pos hi, if_pos hi, if_pos (by omega)]
  · rw [if_neg hi, if_neg hi]
    by_cases hj : x = j
    · rw [if_pos hj, if_pos hj, if_pos (by omega)]
    · rw [if_neg hj, if_neg hj]

/-- A first item that is null is there in any longer list. -/
theorem putItem_null_first (hi : 0 < i) : putItem (putItem [] 0 .null) i v = putItem [] i v := by
  apply List.ext_getElem?
  intro x
  simp only [getElem?_putItem_eq, getD_putItem, length_putItem, List.length_nil]
  split
  · rfl
  · rw [show max (max 0 (0 + 1)) (i + 1) = max 0 (i + 1) by omega]
    cases x <;> rfl

/-- The items after values were put at some places, one after another. -/
def putItems (puts : List (Nat × Value)) : List Value :=
  puts.foldl (fun items put => putItem items put.1 put.2) items

/-- **Items put at different places are the same in any order.** -/
theorem putItems_perm {puts puts' : List (Nat × Value)} (hperm : puts.Perm puts')
    (hplaces : (puts.map Prod.fst).Nodup) : putItems items puts = putItems items puts' := by
  refine hperm.foldl_eq' (fun x hx y hy items => ?_) items
  by_cases hxy : x.1 = y.1
  · rw [List.inj_on_of_nodup_map hplaces hx hy hxy]
  · exact putItem_comm items x.2 y.2 hxy

end Items

/-! ## A slot written in a map -/

namespace Store

variable {s : Store} {id : Nat} {k : String} {v w : Value} {items : List Value}

/-- The store with a value in a slot of a map. -/
def withSlot (s : Store) (id : Nat) (k : String) (v : Value) : Store :=
  s.setMap id ((s.maps.get id).insert k v)

/-- The store with a new list in a slot of a map. -/
def withItems (s : Store) (id : Nat) (k : String) (items : List Value) : Store :=
  (s.addList items).2.withSlot id k (.list s.lists.size)

theorem SameGraph.slot {t : Store} (ht : s.SameGraph t) (h : Holder) (k : String) :
    t.slot h k = s.slot h k := by
  rw [Store.slot, Store.slot, ht.slots]

theorem SameGraph.withSlot {t : Store} (ht : s.SameGraph t) (id : Nat) (k : String) (v : Value) :
    (s.withSlot id k v).SameGraph (t.withSlot id k v) := by
  obtain ⟨_, _, rfl⟩ := ht
  exact ⟨_, _, rfl⟩

theorem SameGraph.withItems {t : Store} (ht : s.SameGraph t) (id : Nat) (k : String)
    (items : List Value) : (s.withItems id k items).SameGraph (t.withItems id k items) := by
  obtain ⟨_, _, rfl⟩ := ht
  exact ⟨_, _, rfl⟩

/-- A slot that does not exist holds nothing. -/
theorem slot_of_not_has {h : Holder} (hno : (s.slots h).has k = false) : s.slot h k = .null := by
  have hget : (s.slots h).get? k = none := by
    rw [Table.get?_eq_none_iff, ← Table.has_iff, hno]
    exact Bool.false_ne_true
  rw [slot, hget]
  rfl

theorem slot_withSlot (hid : id < s.maps.size) : (s.withSlot id k v).slot (.map id) k = v := by
  rw [slot, slots, withSlot, setMap, Pool.get_set_self hid, Table.get?_insert_self]
  rfl

theorem slot_withItems (hid : id < s.maps.size) :
    (s.withItems id k items).slot (.map id) k = .list s.lists.size :=
  slot_withSlot hid

/-- A slot that is written twice holds what was written last. -/
theorem withItems_withSlot (hid : id < s.maps.size) :
    (s.withSlot id k w).withItems id k items = s.withItems id k items := by
  simp only [withItems, withSlot, addList, setMap, Pool.get_set_self hid, Pool.set_set,
    Table.insert_insert]

theorem putListItem_withItems (m : Nat) :
    (s.withItems id k items).putListItem s.lists.size m v =
      s.withItems id k (putItem items m v) := by
  have hitems : (s.lists.add items).2.get s.lists.size = items := Pool.get_add_self s.lists items
  simp only [putListItem, withItems, withSlot, addList, setMap, setList, hitems, Pool.set_add]

theorem putSlot_map (hcell : ∀ c, s.slot (.map id) k ≠ .cell c) :
    s.putSlot (.map id) k v = .ok (s.withSlot id k v) := by
  unfold putSlot
  split
  · next c hc => exact absurd hc (hcell c)
  · next hmap _ =>
    cases hmap
    rfl
  · next hbean _ => cases hbean

end Store

/-! ## Setting an element -/

namespace Pointer

open PathQuery.Action

variable {s : Store} {p : Pointer} {id : Nat} {name : QName} {index : Int} {a : Bool} {m : Nat}
variable {v w : Value} {l : Nat} (hnode : p.node = .slot (.map id) name (.element index) a)
  (hm : (Index.element index).place? = some m)

include hnode hm

theorem result_place_of_element (kind : String) : (p.place kind).result s = (.ok (some m), s) :=
  result_place_element kind (congrArg Node.index hnode) hm

/-- A list gets the value as an item. -/
theorem setSlot_listed (hslot : s.slot (.map id) name.text = .list l) :
    (p.setSlot (.map id) name v).result s = (.ok (), s.putListItem l m v) := by
  have hl : s.unwrap (s.slot (.map id) name.text) = .list l := by
    rw [hslot]
    rfl
  rw [setSlot, result_bind_ok (result_place_of_element hnode hm "property"),
    result_bind_ok (result_get s)]
  simp only [hl]
  rfl

/-- Nothing becomes the value, which is its own first element. -/
theorem setSlot_first (hslot : s.slot (.map id) name.text = .null) (hfirst : m = 0) :
    (p.setSlot (.map id) name v).result s = (.ok (), s.withSlot id name.text v) := by
  have hnull : s.unwrap (s.slot (.map id) name.text) = .null := by
    rw [hslot]
    rfl
  have hcell : ∀ c, s.slot (.map id) name.text ≠ .cell c := by
    rw [hslot]
    exact fun c h => by cases h
  rw [setSlot, result_bind_ok (result_place_of_element hnode hm "property"),
    result_bind_ok (result_get s)]
  simp only [hnull, if_pos hfirst]
  rw [result_putSlot, Store.putSlot_map hcell]

/-- Nothing becomes a list for any other element. -/
theorem setSlot_empty (hslot : s.slot (.map id) name.text = .null) (hlater : m ≠ 0) :
    (p.setSlot (.map id) name v).result s =
      (.ok (), s.withItems id name.text (putItem [] m v)) := by
  have hnull : s.unwrap (s.slot (.map id) name.text) = .null := by
    rw [hslot]
    rfl
  have hcell : ∀ c, (s.addList []).2.slot (.map id) name.text ≠ .cell c := by
    rw [show (s.addList []).2.slot (.map id) name.text = _ from hslot]
    exact fun c h => by cases h
  have hmake : (make (·.addList [])).result s = (.ok s.lists.size, (s.addList []).2) := rfl
  have hput : (putSlot (.map id) name.text (.list s.lists.size)).result (s.addList []).2 =
      (.ok (), s.withItems id name.text []) := by
    rw [result_putSlot, Store.putSlot_map hcell]
    rfl
  rw [setSlot, result_bind_ok (result_place_of_element hnode hm "property"),
    result_bind_ok (result_get s)]
  simp only [hnull, if_neg hlater, Value.isNull, if_true]
  rw [result_bind_ok hmake, result_bind_ok hput, result_change, Store.putListItem_withItems]

/-- A bare value has no other element. -/
theorem setSlot_bare (hslot : s.slot (.map id) name.text = w) (hw : w.isScalar = true)
    (hlater : m ≠ 0) :
    (p.setSlot (.map id) name v).result s =
      (.error (.refused "property" (.setOutsideCollection (p.path s) "property")), s) := by
  have hbare : s.unwrap (s.slot (.map id) name.text) = w := by
    rw [hslot]
    cases w <;> first | rfl | cases hw
  rw [setSlot, result_bind_ok (result_place_of_element hnode hm "property"),
    result_bind_ok (result_get s)]
  simp only [hbare, if_neg hlater]
  cases w <;> first | rfl | cases hw

end Pointer

/-- The path of an element of a bare value names the slot alone. -/
theorem Pointer.path_bare {s : Store} {p : Pointer} {id : Nat} {k : String} {index : Index}
    {w : Value} (hp : p.nodes = [.slot (.map id) (.bare k) index false, .map id none])
    (hslot : s.slot (.map id) k = w) (hw : w.isScalar = true) : p.path s = "/" ++ k := by
  have hitems : s.items? (s.slot (.map id) k) = none := by
    rw [hslot]
    cases w <;> first | rfl | cases hw
  have hbase : (Node.slot (.map id) (.bare k) index false).base s = s.slot (.map id) k := rfl
  have hroot : Node.slashed "/" = "/" := if_pos (Node.endsWith_slash.2 rfl)
  rw [path, hp, List.foldr_cons, List.foldr_cons, List.foldr_nil,
    show (Node.map id none).pathBelow s "" = "/" from rfl, Node.pathBelow, hroot, Node.isCollection,
    hbase, hitems]
  exact String.append_empty

/-! ## Creating an element -/

namespace Environment

variable {env : Environment} {o : Occasion} {p : Pointer} {h : Holder} {s : Store}

/-- Below an object, a name always leads somewhere. -/
theorem exists_slotOrMissing (hp : p.node.IsPlain) (hend : p.node.end? s = some h.value)
    (name : QName) : ∃ q, slotOrMissing .standard p name false s = .ok q := by
  have hfirst : ∃ other, firstPassing .standard p name false s = .ok other := by
    rw [firstPassing, if_neg (by simp), Pointer.children_of_holder hp hend]
    exact ⟨_, rfl⟩
  obtain ⟨other, hother⟩ := hfirst
  rw [slotOrMissing, Pointer.slot?_eq hp, (Pointer.value_eq_ok_iff hp).2 hend, Except.ok_bind,
    Holder.holder?_value, hother]
  dsimp only
  split <;> exact ⟨_, rfl⟩

variable (env o s) in
/-- A step from a map leads to a slot of the map, or to one that it does not have. -/
theorem resolve_bare {x : NamedStep} {id : Nat} (hx : x.IsBare) (hp : p.node.IsPlain)
    (hend : ∀ t, p.node.end? t = some (.map id)) :
    ∃ q, (env.resolve .standard o p [x.simple]).result s = (.ok q, s) ∧
      (q.nodes = .slot (.map id) x.name x.index false :: p.nodes ∨
        q.nodes = .missing x.name x.index false :: p.nodes) := by
  obtain ⟨slot, hslot⟩ := exists_slotOrMissing (h := .map id) hp (hend (s.on (o.part 0))) x.name
  have hmoved : (env.resolveStep .standard (o.part 0) p x.simple).result s =
      (.ok (moved p slot x (s.on (o.part 0))), s) := by
    rw [result_resolveStep, hx.child, hslot]
    rfl
  refine ⟨_, by rw [resolve, Action.result_bind_ok hmoved]; rfl, ?_⟩
  have hlist (l : Nat) : p.node.end? s ≠ some (.list l) := by
    rw [hend]
    exact fun h => by cases h
  rcases slotOrMissing_sought (.on s _) hp hx hlist hslot with ⟨h, hh, rfl⟩ | ⟨-, rfl⟩
  · rw [hend] at hh
    obtain rfl : h = .map id := by cases h <;> cases hh; rfl
    exact .inl (nodes_moved rfl rfl _)
  · exact .inr (nodes_moved rfl rfl _)

end Environment

namespace Pointer

open PathQuery.Action

variable {s : Store} {p : Pointer} {id : Nat} {name : QName} {index : Index}

/-- To create a child of a map with a value is to set its slot. -/
theorem result_createChild_map (factory : Option ObjectFactory) (hp : p.node.IsPlain)
    (hend : p.node.end? s = some (.map id)) (v : Value) :
    (p.createChild .standard factory name index (some v)).result s = (do
      let child := p.child s.now (.slot (.map id) name index false)
      child.setSlot (.map id) name v
      pure child : Action Pointer).result s := by
  obtain ⟨target, htarget, -, hnode⟩ := valuePointer_of_end hp hend
  have hholder : target.node.holder? = some (.map id) := by
    rcases hnode with hnode | ⟨-, -, hnull⟩
    · rw [hnode]
      rfl
    · cases hnull
  unfold createChild
  rw [result_bind_ok (x := target) (by rw [result_read, htarget])]
  dsimp only
  rw [hholder]
  dsimp only
  rw [result_bind_ok (result_get s)]

variable {factory : Option ObjectFactory} {v : Value}

/-- To create what a pointer to a slot points at is to set the slot. -/
theorem result_createAndSet_found
    (hp : p.nodes = [.slot (.map id) name index false, .map id none]) :
    (p.createAndSet .standard factory v).result s = (do
      p.setSlot (.map id) name v
      pure p : Action Pointer).result s := by
  have hnode := (List.cons.inj (p.nodes_eq ▸ hp)).1
  unfold createAndSet
  rw [hnode]
  dsimp only
  rw [setValue_slot hnode]

/-- To create what is missing below a map is to set a slot of the map. -/
theorem result_createAndSet_missing {q : Pointer}
    (hq : q.nodes = [.missing name index false, .map id none]) : ∃ p : Pointer,
      p.nodes = [.slot (.map id) name index false, .map id none] ∧
        (q.createAndSet .standard factory v).result s = (do
          p.setSlot (.map id) name v
          pure p : Action Pointer).result s := by
  have hnode := (List.cons.inj (q.nodes_eq ▸ hq)).1
  obtain ⟨parent, hparent, hmap⟩ := exists_parent? (by rw [hq]; rfl)
  have hfound : (parent.createPath .standard factory).result s = (.ok parent, s) :=
    createAt_of_made (show parent.node.IsMade s by rw [hmap]; trivial)
  have habove : parent.nodes = [.map id none] := by
    rw [nodes_parent? hparent] at hq
    exact (List.cons.inj hq).2
  refine ⟨parent.child s.now (.slot (.map id) name index false), congrArg (_ :: ·) habove, ?_⟩
  unfold createAndSet
  rw [hnode, hparent]
  dsimp only
  rw [result_bind_ok hfound, if_neg Bool.false_ne_true]
  exact result_createChild_map _ (by rw [hmap]; trivial) (by rw [hmap]; rfl) v

end Pointer

namespace CompiledPath

open Pointer Environment

variable {ctx : Context} {c : CompiledPath} {id i : Nat} {k : String}

/-- **To create an element of a map's slot is to set it**, whether there is such a slot or not. -/
theorem result_createAndSet_element (hctx : ctx.StartsAt (.map id))
    (hc : c.expr.value = .path .root [(childStep k (some i)).step])
    (hk : (QName.bare k).isWildcard = false) (v : Value) (s : Store) : ∃ p : Pointer,
      p.nodes = [.slot (.map id) (.bare k) (.element (NamedStep.place i)) false, .map id none] ∧
        (c.createAndSet ctx .standard v).result s = (do
          p.setSlot (.map id) (.bare k) v
          pure p : Action Pointer).result s := by
  have hpath : simplePath? .root ([childStep k (some i)].map NamedStep.step) =
      some (true, [childStep k (some i)].map NamedStep.simple) := by
    rw [simplePath?, simplePath?_named (List.forall_mem_singleton.2 hk)]
    rfl
  have hroot : ctx.env.root.nodes = [.map id none] := by
    rw [nodes_eq, hctx.node, hctx.above]
    rfl
  have hend (t : Store) : ctx.env.root.node.end? t = some (.map id) := by
    rw [hctx.node]
    rfl
  obtain ⟨q, hq, hnodes⟩ := resolve_bare ctx.env (s.now.part 0) s (x := childStep k (some i))
    ⟨rfl, rfl, hk⟩ (hctx.holds s).1 hend
  have htarget : (c.creationTarget ctx .standard).result s = (.ok q, s) := by
    rw [result_creationTarget hc hpath]
    exact hq
  rw [createAndSet, Action.result_bind_ok htarget]
  rw [hroot] at hnodes
  rcases hnodes with hnodes | hnodes
  · exact ⟨q, hnodes, result_createAndSet_found hnodes⟩
  · exact result_createAndSet_missing hnodes

end CompiledPath

end PathQuery
