import PathQuery.Proofs.Filling
import PathQuery.Proofs.Lenience

/-!
# What a written slot shows

A value that is written to a slot goes into the slot, into the cell that the slot holds, or into the
list that it holds or is given. The slot shows it afterwards, if the value can be shown.

* names: `Value.IsShowable`, `Store.SlotHolds`.
* `slotHolds_of_putSlot`: what `putSlot` leaves in a slot.
* **`setSlot_shows`**: a slot shows what was written to it, the whole of it or one element.
-/

namespace PathQuery

/-- Nothing is looked through to get at the value, and it is not nothing. -/
def Value.IsShowable : Value → Prop
  | null | cell _ | foreign _ => False
  | _ => True

namespace Value.IsShowable

variable {s : Store} {v : Value} {n : Nat}

theorem ne_null (hv : v.IsShowable) : v ≠ .null := by
  rintro rfl
  exact hv

theorem ne_cell (hv : v.IsShowable) (c : Nat) : v ≠ .cell c := by
  rintro rfl
  exact hv

theorem endUpTo? (hv : v.IsShowable) : s.endUpTo? (n + 1) v = some v := by
  cases v <;> first | rfl | exact absurd hv id

end Value.IsShowable

/-! ## A written slot -/

namespace Store

variable {s t : Store} {h : Holder} {name : String} {v : Value} {l i : Nat}

/-- The slot holds the value, or a cell does that the slot holds. -/
def SlotHolds (s : Store) (h : Holder) (name : String) (v : Value) : Prop :=
  s.slot h name = v ∨ ∃ c, s.slot h name = .cell c ∧ s.cells.get c = v

theorem SlotHolds.unwrap (hs : s.SlotHolds h name v) (hv : ∀ c, v ≠ .cell c) :
    s.unwrap (s.slot h name) = v := by
  rcases hs with hs | ⟨c, hs, hc⟩
  · rw [hs, Store.unwrap, unwrapUpTo_of_not_cell hv]
  · rw [hs, Store.unwrap, maxIndirections, unwrapUpTo, hc, unwrapUpTo_of_not_cell hv]

theorem SlotHolds.end? (hs : s.SlotHolds h name v) (hv : v.IsShowable) :
    s.endUpTo? (maxIndirections - 1) (s.slot h name) = some v := by
  rcases hs with hs | ⟨c, hs, hc⟩
  · rw [hs]
    exact hv.endUpTo?
  · rw [hs]
    show s.endUpTo? _ (s.cells.get c) = some v
    rw [hc]
    exact hv.endUpTo?

theorem slot_putListItem (s : Store) (l i : Nat) (w : Value) (h : Holder) (name : String) :
    (s.putListItem l i w).slot h name = s.slot h name := by cases h <;> rfl

theorem unwrap_putListItem (s : Store) (l i : Nat) (w v : Value) :
    (s.putListItem l i w).unwrap v = s.unwrap v :=
  unwrapUpTo_congr (t := s.putListItem l i w) (s := s) rfl maxIndirections v

theorem has_putListItem {o : Place} {w : Value} : (s.putListItem l i w).Has o ↔ s.Has o := by
  cases o <;> simp [Has, putListItem, setList]

theorem unwrap_addList (s : Store) (items : List Value) (v : Value) :
    (s.addList items).2.unwrap v = s.unwrap v :=
  unwrapUpTo_congr (t := (s.addList items).2) (s := s) rfl maxIndirections v

theorem slotEntry_of_not_cell (hcell : ∀ c, s.slot h name ≠ .cell c) :
    s.slotEntry h name = .slot h name := by
  rw [slotEntry]
  split
  · next c hc => exact absurd hc (hcell c)
  · rfl

/-- A slot without a cell has the value that is written, if there is an object to write to. -/
theorem slot_of_putSlot (hcell : ∀ c, s.slot h name ≠ .cell c) (hput : s.putSlot h name v = .ok t) :
    (t.Has h.place → t.slot h name = v) ∧ (¬ t.Has h.place → t = s) := by
  unfold putSlot at hput
  split at hput
  · next hc => exact absurd hc (hcell _)
  · next id _ =>
    obtain rfl := Except.ok.inj hput
    refine ⟨fun hhas => ?_, fun hno => ?_⟩
    · have hid : id < s.maps.size := by simpa [Has, Holder.place, setMap] using hhas
      rw [slot, slots, setMap, Pool.get_set_self hid, Table.get?_insert_self]
      rfl
    · rw [setMap, Pool.set_of_not_lt (by simpa [Has, Holder.place, setMap] using hno)]
  · next id _ =>
    dsimp only at hput
    split at hput
    · next bean hassign =>
      obtain rfl := Except.ok.inj hput
      refine ⟨fun hhas => ?_, fun hno => ?_⟩
      · have hid : id < s.beans.size := by simpa [Has, Holder.place, setBean] using hhas
        obtain ⟨-, rfl⟩ := Bean.assign_eq_ok hassign
        rw [slot, slots, setBean, Pool.get_set_self hid, Table.get?_insert_self]
        rfl
      · rw [setBean, Pool.set_of_not_lt (by simpa [Has, Holder.place, setBean] using hno)]
    · cases hput

/-- **A slot holds what is written to it**, if there is an object to write to. It is written at the
same entry ever after. -/
theorem slotHolds_of_putSlot (hput : s.putSlot h name v = .ok t) (hv : ∀ c, v ≠ .cell c) :
    t.slotEntry h name = s.slotEntry h name ∧
      (t.Has (t.slotEntry h name).place → t.SlotHolds h name v) ∧
      (¬ t.Has (t.slotEntry h name).place → t = s) := by
  by_cases hcell : ∃ c, s.slot h name = .cell c
  · obtain ⟨c, hc⟩ := hcell
    have ht : s.setCell c v = t := by
      unfold putSlot at hput
      rw [hc] at hput
      exact Except.ok.inj hput
    have hslot : t.slot h name = .cell c := by
      rw [← ht, ← hc]
      cases h <;> rfl
    have hplace : t.slotEntry h name = .content c := by rw [slotEntry, hslot]
    rw [hplace, slotEntry, hc]
    refine ⟨rfl, fun hhas => .inr ⟨c, hslot, ?_⟩, fun hno => ?_⟩
    · rw [← ht] at hhas ⊢
      exact Pool.get_set_self (by simpa [Has, Entry.place, setCell] using hhas) v
    · rw [← ht] at hno ⊢
      rw [setCell, Pool.set_of_not_lt (by simpa [Has, Entry.place, setCell] using hno)]
  · rw [not_exists] at hcell
    obtain ⟨hholds, hnone⟩ := slot_of_putSlot hcell hput
    have hafter (c : Nat) : t.slot h name ≠ .cell c := by
      by_cases hhas : t.Has h.place
      · rw [hholds hhas]
        exact hv c
      · rw [hnone hhas]
        exact hcell c
    rw [slotEntry_of_not_cell hafter, slotEntry_of_not_cell hcell, Entry.place_slot]
    exact ⟨rfl, fun hhas => .inl (hholds hhas), hnone⟩

theorem entryAt?_list {j : Int} {whole : Entry} (hi : (Index.element j).place? = some i)
    (hl : s.unwrap v = .list l) : s.entryAt? v (.element j) whole = some (.item l i) := by
  simp only [entryAt?, hi, listId?_eq_some.2 hl]

theorem entryAt?_sole {j : Int} {whole : Entry} (hi : (Index.element j).place? = some i)
    (hl : ∀ l, s.unwrap v ≠ .list l) : s.entryAt? v (.element j) whole = some whole := by
  have hnone : s.listId? v = none := by
    rw [Option.eq_none_iff_forall_ne_some]
    exact fun l h => hl l (listId?_eq_some.1 h)
  simp only [entryAt?, hi, hnone]

end Store

namespace Pointer

open PathQuery.Action

variable {s t : Store} {p : Pointer} {h : Holder} {name : QName} {index : Index} {a : Bool}
variable {v : Value} {e : Entry}

theorem putSlot_eq_ok {key : String} (hput : (Action.putSlot h key v).result s = (.ok (), t)) :
    s.putSlot h key v = .ok t := by
  rw [result_putSlot] at hput
  split at hput
  · next hok =>
    cases hput
    exact hok
  · cases hput

/-- A slot shows what was put into it, the whole of it or what counts as its only element. -/
theorem putSlot_shows (hput : s.putSlot h name.text v = .ok t) (hv : v.IsShowable)
    (hindex : index = .whole ∨ index = .element 0 ∧
      (∀ l, s.unwrap (s.slot h name.text) ≠ .list l) ∧ ∀ l, v ≠ .list l)
    (he : (Node.slot h name index a).target? t = some e) (hhas : t.Has e.place) :
    (Node.slot h name index a).end? t = some v ∧
      (Node.slot h name index a).target? s = some e := by
  obtain ⟨hentry, hholds, hnone⟩ := Store.slotHolds_of_putSlot hput hv.ne_cell
  have htarget {u : Store}
      (hu : index = .whole ∨ index = .element 0 ∧ ∀ l, u.unwrap (u.slot h name.text) ≠ .list l) :
      (Node.slot h name index a).target? u = some (u.slotEntry h name.text) := by
    rw [Node.target?]
    rcases hu with rfl | ⟨rfl, hu⟩
    · rfl
    · exact Store.entryAt?_sole rfl hu
  have hbefore := htarget (hindex.imp_right fun h => ⟨h.1, h.2.1⟩)
  by_cases hslot : t.Has (t.slotEntry h name.text).place
  · have hunwrap := (hholds hslot).unwrap hv.ne_cell
    have hafter := htarget (u := t) (hindex.imp_right fun h => ⟨h.1, fun l => hunwrap ▸ h.2.2 l⟩)
    rw [hafter] at he
    obtain rfl := Option.some.inj he
    refine ⟨?_, hbefore.trans (congrArg some hentry.symm)⟩
    have himm : (Node.slot h name index a).immediate t = t.slot h name.text := by
      show t.select (t.slot h name.text) index = _
      rcases hindex with rfl | ⟨rfl, -, hlist⟩
      · rfl
      · exact (Store.select_of_not_list (k := 0) rfl (hunwrap ▸ hlist)).trans (if_pos rfl)
    rw [Node.end?_eq (by trivial), himm]
    exact (hholds hslot).end? hv
  · obtain rfl := hnone hslot
    rw [hbefore] at he
    obtain rfl := Option.some.inj he
    exact absurd hhas hslot

/-- A slot shows the element that was put into the list in it. -/
theorem putListItem_shows {l k : Nat} {i : Int} (hk : (Index.element i).place? = some k)
    (hl : s.unwrap (s.slot h name.text) = .list l) (hv : v.IsShowable)
    (he : (Node.slot h name (.element i) a).target? (s.putListItem l k v) = some e)
    (hhas : (s.putListItem l k v).Has e.place) :
    (Node.slot h name (.element i) a).end? (s.putListItem l k v) = some v ∧
      (Node.slot h name (.element i) a).target? s = some e := by
  have hl' : (s.putListItem l k v).unwrap ((s.putListItem l k v).slot h name.text) = .list l := by
    rw [Store.slot_putListItem, Store.unwrap_putListItem, hl]
  rw [Node.target?, Store.entryAt?_list hk hl'] at he
  obtain rfl := Option.some.inj he
  refine ⟨?_, by rw [Node.target?, Store.entryAt?_list hk hl]⟩
  have hitems : (s.putListItem l k v).lists.get l = putItem (s.lists.get l) k v :=
    Pool.get_set_self (Store.has_putListItem.1 hhas) _
  have himm : (Node.slot h name (.element i) a).immediate (s.putListItem l k v) = v := by
    show (s.putListItem l k v).select ((s.putListItem l k v).slot h name.text) (.element i) = v
    rw [Store.select_of_list hk hl', hitems, List.getD_eq_getElem?_getD, getElem?_putItem]
    rfl
  rw [Node.end?_eq (by trivial), himm]
  exact hv.endUpTo?

/-- A slot that was empty shows the element that was put into its new list. -/
theorem putList_shows {l k : Nat} {i : Int} (hk : (Index.element i).place? = some k)
    (hnull : s.unwrap (s.slot h name.text) = .null)
    (hput : s.putSlot h name.text (.list l) = .ok t) (hv : v.IsShowable)
    (he : (Node.slot h name (.element i) a).target? (t.putListItem l k v) = some e)
    (hhas : (t.putListItem l k v).Has e.place) :
    (Node.slot h name (.element i) a).end? (t.putListItem l k v) = some v := by
  obtain ⟨-, hholds, hnone⟩ := Store.slotHolds_of_putSlot hput nofun
  by_cases hslot : t.Has (t.slotEntry h name.text).place
  · exact (putListItem_shows hk ((hholds hslot).unwrap nofun) hv he hhas).1
  · obtain rfl := hnone hslot
    have hlist (l' : Nat) : (t.putListItem l k v).unwrap
        ((t.putListItem l k v).slot h name.text) ≠ .list l' := by
      rw [Store.slot_putListItem, Store.unwrap_putListItem, hnull]
      nofun
    rw [Node.target?, Store.entryAt?_sole hk hlist] at he
    obtain rfl := Option.some.inj he
    have hentry : (t.putListItem l k v).slotEntry h name.text = t.slotEntry h name.text := by
      rw [Store.slotEntry, Store.slotEntry, Store.slot_putListItem]
    rw [Store.has_putListItem, hentry] at hhas
    exact absurd hhas hslot

/-- **A slot shows what was written to it.** The entry that was written is the one that the slot
names, unless there was nothing in the slot. -/
theorem setSlot_shows (hnode : p.node = .slot h name index a)
    (hset : (p.setSlot h name v).result s = (.ok (), t)) (hv : v.IsShowable)
    (hsole : ∀ l, v = .list l → index = .element 0 →
      ∃ l', s.unwrap (s.slot h name.text) = .list l')
    (he : (Node.slot h name index a).target? t = some e) (hhas : t.Has e.place) :
    (Node.slot h name index a).end? t = some v ∧
      ((Node.slot h name index a).target? s = some e ∨ s.IsBlank (s.slot h name.text)) := by
  obtain rfl : p.node.index = index := by rw [hnode]; rfl
  rw [setSlot] at hset
  cases hindex : p.node.index with
  | whole =>
    rw [result_bind_ok (result_place_whole "property" hindex)] at hset
    rw [hindex] at he
    exact (putSlot_shows (putSlot_eq_ok hset) hv (.inl rfl) he hhas).imp_right .inl
  | element i =>
    rw [hindex] at he hsole
    cases hk : (Index.element i).place? with
    | none =>
      rw [result_bind_error (result_place_none "property" hindex hk)] at hset
      cases hset
    | some k =>
      rw [result_bind_ok (result_place_element "property" hindex hk), result_bind_ok (result_get s)]
        at hset
      dsimp only at hset
      split at hset
      · next l hl =>
        rw [result_change, Prod.mk.injEq] at hset
        obtain ⟨-, rfl⟩ := hset
        exact (putListItem_shows hk hl hv he hhas).imp_right .inl
      · next hl =>
        split at hset
        · next hzero =>
          obtain ⟨hi, rfl⟩ := Index.place?_element hk
          obtain rfl : i = 0 := by omega
          have hsingle (l : Nat) : v ≠ .list l := by
            rintro rfl
            obtain ⟨l', hl'⟩ := hsole l rfl rfl
            exact hl l' hl'
          have hput := putSlot_eq_ok hset
          exact (putSlot_shows hput hv (.inr ⟨rfl, hl, hsingle⟩) he hhas).imp_right .inl
        · split at hset
          · next hnull =>
            have hblank := Value.isNull_iff.1 hnull
            have hmake : (make (·.addList [])).result s =
                (.ok s.lists.size, (s.addList []).2) := rfl
            rw [result_bind_ok hmake] at hset
            obtain ⟨_, u, hu, hset⟩ := result_bind_eq_ok_iff.1 hset
            rw [result_change, Prod.mk.injEq] at hset
            obtain ⟨-, rfl⟩ := hset
            have hnew : (s.addList []).2.unwrap ((s.addList []).2.slot h name.text) = .null := by
              rw [Store.slot_addList, Store.unwrap_addList, hblank]
            exact ⟨putList_shows hk hnew (putSlot_eq_ok hu) hv he hhas, .inr ⟨_, hblank⟩⟩
          · cases hset

end Pointer

end PathQuery
