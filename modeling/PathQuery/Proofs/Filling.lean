import PathQuery.Proofs.Effects

/-!
# Filling what is blank

To make a node exist, a value is put where nothing was, and nowhere else. What held something keeps
it, whatever handles lead there.

* names: `Holder.place`, `Store.IsBlank`, `Entry.Kept`, `Store.FilledTo`, `Store.Adds`,
  `Store.Refers`.
* `ChangedTo.kept`: a write keeps every other entry. **`ChangedTo.filledTo`**: the write of a blank
  entry keeps them all.
* **`createSlot_keeps`**: what its parts keep, the making of a slot keeps.
  **`createSlot_filledTo`**: making a slot, or an element of the list in it, only fills.
-/

namespace PathQuery

/-- The object as a place of the store. -/
def Holder.place : Holder → Place
  | map id => .map id
  | bean id => .bean id

theorem Entry.place_slot (h : Holder) (name : String) : (slot h name).place = h.place := by
  cases h <;> rfl

/-! ## Blank values -/

theorem Pool.set_of_not_lt {α : Type} {p : Pool α} {i : Nat} (h : ¬ i < p.size) (a : α) :
    p.set i a = p :=
  congrArg Pool.mk (Array.setIfInBounds_eq_of_size_le (Nat.le_of_not_lt h))

namespace Store

variable {s t : Store} {v w : Value} {n m c : Nat}

/-- The value is null, inside any number of cells. -/
def IsBlank (s : Store) (v : Value) : Prop := ∃ n, s.unwrapUpTo n v = .null

theorem isBlank_null (s : Store) : s.IsBlank .null := ⟨0, rfl⟩

theorem not_isBlank_value (h : Holder) : ¬ s.IsBlank h.value := by
  rintro ⟨n, hn⟩
  cases h <;> cases n <;> cases hn

theorem isBlank_cell : s.IsBlank (.cell c) ↔ s.IsBlank (s.cells.get c) := by
  constructor
  · rintro ⟨n, h⟩
    cases n with
    | zero => cases h
    | succ n => exact ⟨n, h⟩
  · rintro ⟨n, h⟩
    exact ⟨n + 1, h⟩

/-- A value that has been unwrapped stays so. -/
theorem unwrapUpTo_of_le (h : s.unwrapUpTo n v = w) (hw : ∀ c, w ≠ .cell c) (hnm : n ≤ m) :
    s.unwrapUpTo m v = w := by
  induction n generalizing v m with
  | zero =>
    obtain rfl : v = w := h
    exact unwrapUpTo_of_not_cell hw
  | succ n ih =>
    obtain ⟨m, rfl⟩ : ∃ k, m = k + 1 := ⟨m - 1, by omega⟩
    cases v with
    | cell c =>
      rw [unwrapUpTo] at h ⊢
      exact ih h (by omega)
    | _ => exact h

/-- What is inside the cells of a value decides whether it is blank. -/
theorem not_isBlank_of_unwrapUpTo (h : s.unwrapUpTo n v = w) (hw : ∀ c, w ≠ .cell c)
    (hnull : w ≠ .null) : ¬ s.IsBlank v := by
  rintro ⟨m, hm⟩
  have h₁ := unwrapUpTo_of_le h hw (Nat.le_max_left n m)
  have h₂ := unwrapUpTo_of_le hm nofun (Nat.le_max_right n m)
  exact hnull (h₁.symm.trans h₂)

theorem not_isBlank_of_list {l : Nat} (h : s.unwrap v = .list l) : ¬ s.IsBlank v :=
  not_isBlank_of_unwrapUpTo h nofun nofun

theorem not_isBlank_of_endUpTo? (h : s.endUpTo? n v = some w) (hnull : w ≠ .null) :
    ¬ s.IsBlank v :=
  not_isBlank_of_unwrapUpTo (unwrapUpTo_of_endUpTo? (m := n) (Nat.le_succ n) h)
    (endUpTo?_ne_cell h) hnull

end Store

/-! ## What is kept -/

/-- The entry holds what it held, unless that was blank. -/
def Entry.Kept (s t : Store) (e : Entry) : Prop :=
  ∀ v, e.value? s = some v → ¬ s.IsBlank v → e.value? t = some v

namespace Store

variable {s t u : Store} {e e' : Entry} {v w : Value} {h : Holder} {name : String}

/-- Where there is no object, there is nothing but blanks. -/
theorem isBlank_of_not_has (he : ¬ s.Has e.place) (hv : e.value? s = some v) : s.IsBlank v := by
  rcases e with ⟨l, i⟩ | ⟨id | id, name⟩ | c | ⟨k, name⟩
  · rw [Entry.value?, Pool.get_of_not_lt he] at hv
    cases hv
  · rw [Entry.value?, slots, Pool.get_of_not_lt he] at hv
    cases hv
  · rw [Entry.value?, slots, Pool.get_of_not_lt he] at hv
    cases hv
  · rw [Entry.value?, Pool.get_of_not_lt he] at hv
    cases hv
    exact s.isBlank_null
  · rw [Entry.value?, Pool.get_of_not_lt he] at hv
    cases hv

theorem slots_of_not_has (hh : ¬ s.Has h.place) : s.slots h = .empty := by
  cases h with
  | map id => exact Pool.get_of_not_lt hh
  | bean id =>
    rw [slots, Pool.get_of_not_lt hh]
    rfl

theorem listId?_eq_some {l : Nat} : s.listId? v = some l ↔ s.unwrap v = .list l := by
  rw [listId?]
  cases s.unwrap v <;> simp

theorem slot_addList (s : Store) (items : List Value) (h : Holder) (name : String) :
    (s.addList items).2.slot h name = s.slot h name := by cases h <;> rfl

/-- A slot that holds something is an entry. -/
theorem value?_slot (hv : s.slot h name = v) (hnull : v ≠ .null) :
    (Entry.slot h name).value? s = some v := by
  rw [slot] at hv
  rw [Entry.value?]
  cases hget : (s.slots h).get? name with
  | none => exact absurd (by rw [← hv, hget]; rfl) hnull
  | some w => rw [← hv, hget]; rfl

section Kept

variable (hcells : ∀ c, (Entry.content c).Kept s t)
include hcells

/-- What is not blank has the same inside, if the cells are kept. -/
theorem unwrapUpTo_of_kept (hv : ¬ s.IsBlank v) (n : Nat) :
    t.unwrapUpTo n v = s.unwrapUpTo n v := by
  induction n generalizing v with
  | zero => rfl
  | succ n ih =>
    cases v with
    | cell c =>
      rw [isBlank_cell] at hv
      have hc : t.cells.get c = s.cells.get c := Option.some.inj (hcells c _ rfl hv)
      rw [unwrapUpTo, unwrapUpTo, hc]
      exact ih hv
    | _ => rfl

theorem not_isBlank_of_kept (hv : ¬ s.IsBlank v) : ¬ t.IsBlank v := by
  rintro ⟨n, hn⟩
  rw [unwrapUpTo_of_kept hcells hv] at hn
  exact hv ⟨n, hn⟩

end Kept

end Store

theorem Entry.Kept.trans {s t u : Store} {e : Entry} (h : e.Kept s t)
    (hcells : ∀ c, (content c).Kept s t) (h' : e.Kept t u) : e.Kept s u := fun v hv hblank =>
  h' v (h v hv hblank) (Store.not_isBlank_of_kept hcells hblank)

/-! ## Filling -/

theorem Table.AgreesBut.keys_prefix {α : Type} {name : String} {t t' : Table α}
    (h : t.AgreesBut name t') : t.keys <+: t'.keys := by
  rw [h.keys]
  split
  · exact List.prefix_refl _
  · exact List.prefix_append _ _

namespace Store

variable {s t u : Store} {e e' : Entry} {v w : Value} {h : Holder} {name : String} {l i n : Nat}

/-- Blanks may have been filled, and names, items and objects added. All else is as it was. -/
structure FilledTo (s t : Store) : Prop where
  has : ∀ o, s.Has o → t.Has o
  kept : ∀ e : Entry, e.Kept s t
  keys : ∀ h, (s.slots h).keys <+: (t.slots h).keys
  length : ∀ l, (s.lists.get l).length ≤ (t.lists.get l).length

theorem FilledTo.refl (s : Store) : s.FilledTo s :=
  ⟨fun _ h => h, fun _ _ h _ => h, fun _ => List.prefix_refl _, fun _ => Nat.le_refl _⟩

theorem FilledTo.trans (h : s.FilledTo t) (h' : t.FilledTo u) : s.FilledTo u where
  has o ho := h'.has o (h.has o ho)
  kept e := (h.kept e).trans (fun c => h.kept (.content c)) (h'.kept e)
  keys k := (h.keys k).trans (h'.keys k)
  length l := Nat.le_trans (h.length l) (h'.length l)

instance : IsPreorder Store FilledTo where
  refl := .refl
  trans _ _ _ := .trans

/-! ### What a write keeps -/

/-- **A write keeps every other entry.** -/
theorem ChangedTo.kept (h : s.ChangedTo e w t) (he : e' ≠ e) : e'.Kept s t := by
  intro v hv hblank
  have hhas : s.Has e'.place := by
    by_contra hno
    exact hblank (isBlank_of_not_has hno hv)
  by_cases hplace : e'.place = e.place
  · obtain ⟨-, hchange, -⟩ := h.entry (hplace ▸ hhas)
    rcases e with ⟨l, i⟩ | ⟨id | id, name⟩ | c | ⟨k, name⟩ <;>
      rcases e' with ⟨l', j⟩ | ⟨id' | id', name'⟩ | c' | ⟨k', name'⟩ <;>
      simp only [Entry.place, reduceCtorEq, Place.list.injEq, Place.map.injEq, Place.bean.injEq,
        Place.cell.injEq, Place.scope.injEq] at hplace
    · subst hplace
      have hj : j < (s.lists.get l').length := (List.getElem?_eq_some_iff.1 hv).1
      have hlt : j < (t.lists.get l').length := by
        rw [hchange.length]
        omega
      rw [Entry.value?] at hv ⊢
      rw [hchange.others j (by rintro rfl; exact he rfl) hlt, List.getD_eq_getElem?_getD, hv]
      rfl
    · subst hplace
      exact (hchange.others name' (by rintro rfl; exact he rfl)).trans hv
    · subst hplace
      obtain ⟨properties, hbean, -, hothers⟩ := hchange
      rw [Entry.value?, slots, hbean]
      exact (hothers.others name' (by rintro rfl; exact he rfl)).trans hv
    · subst hplace
      exact absurd rfl he
    · subst hplace
      exact (hchange.others name' (by rintro rfl; exact he rfl)).trans hv
  · rw [value?_congr (h.others _ hplace hhas).2]
    exact hv

theorem slots_congr (hcontent : t.content h.place = s.content h.place) : t.slots h = s.slots h := by
  cases h with
  | map id => exact Content.table.inj hcontent
  | bean id => exact congrArg Bean.properties (Content.bean.inj hcontent)

/-- No write takes a name away. -/
theorem ChangedTo.keys_prefix (hchange : s.ChangedTo e w t) (h : Holder) :
    (s.slots h).keys <+: (t.slots h).keys := by
  by_cases hhas : s.Has h.place
  · by_cases hplace : h.place = e.place
    · obtain ⟨-, hentry, -⟩ := hchange.entry (hplace ▸ hhas)
      rcases e with ⟨l, i⟩ | ⟨id | id, name⟩ | c | ⟨k, name⟩ <;> rcases h with id' | id' <;>
        simp only [Entry.place, Holder.place, reduceCtorEq, Place.map.injEq,
          Place.bean.injEq] at hplace
      · subst hplace
        exact hentry.keys_prefix
      · subst hplace
        obtain ⟨properties, hbean, hkeys, -⟩ := hentry
        have hsame : (t.slots (.bean id')).keys = (s.slots (.bean id')).keys := by
          rw [slots, slots, hbean, hkeys]
        exact hsame ▸ List.prefix_rfl
    · have hsame := slots_congr (hchange.others _ hplace hhas).2
      exact hsame ▸ List.prefix_rfl
  · rw [slots_of_not_has hhas]
    exact List.nil_prefix

/-- No write takes an item away. -/
theorem ChangedTo.length_le (h : s.ChangedTo e w t) (l : Nat) :
    (s.lists.get l).length ≤ (t.lists.get l).length := by
  by_cases hhas : s.Has (.list l)
  · by_cases hplace : .list l = e.place
    · obtain ⟨-, hentry, -⟩ := h.entry (hplace ▸ hhas)
      rcases e with ⟨l', i⟩ | ⟨id | id, name⟩ | c | ⟨k, name⟩ <;>
        simp only [Entry.place, reduceCtorEq, Place.list.injEq] at hplace
      subst hplace
      rw [hentry.length]
      exact Nat.le_max_left ..
    · exact Nat.le_of_eq (congrArg List.length (Content.items.inj (h.others _ hplace hhas).2)).symm
  · rw [Pool.get_of_not_lt hhas]
    exact Nat.zero_le _

theorem ChangedTo.has (h : s.ChangedTo e w t) (o : Place) (ho : s.Has o) : t.Has o := by
  by_cases hplace : o = e.place
  · subst hplace
    exact (h.entry ho).1
  · exact (h.others o hplace ho).1

/-- **The write of a blank entry only fills.** -/
theorem ChangedTo.filledTo (h : s.ChangedTo e w t)
    (hblank : ∀ v, e.value? s = some v → s.IsBlank v) : s.FilledTo t where
  has := h.has
  kept e' := by
    by_cases he : e' = e
    · subst he
      exact fun v hv hnot => absurd (hblank v hv) hnot
    · exact h.kept he
  keys := h.keys_prefix
  length := h.length_le

theorem Unchanged.filledTo (h : s.Unchanged t) : s.FilledTo t where
  has o ho := (h o ho).1
  kept e v hv hblank := by
    have hhas : s.Has e.place := by
      by_contra hno
      exact hblank (isBlank_of_not_has hno hv)
    rw [value?_congr (h _ hhas).2]
    exact hv
  keys k := by
    by_cases hhas : s.Has k.place
    · exact slots_congr (h _ hhas).2 ▸ List.prefix_rfl
    · rw [slots_of_not_has hhas]
      exact List.nil_prefix
  length l := by
    by_cases hhas : s.Has (.list l)
    · exact Nat.le_of_eq (congrArg List.length (Content.items.inj (h _ hhas).2)).symm
    · rw [Pool.get_of_not_lt hhas]
      exact Nat.zero_le _

/-! ### Filling one entry -/

/-- Behind a blank slot is a blank entry. -/
theorem isBlank_slotEntry (h : Holder) (name : String) (hslot : s.IsBlank (s.slot h name))
    (hv : (s.slotEntry h name).value? s = some v) : s.IsBlank v := by
  rw [slotEntry] at hv
  split at hv
  · next c hc =>
    rw [hc, isBlank_cell] at hslot
    cases hv
    exact hslot
  · have : s.slot h name = v := by
      rw [Entry.value?] at hv
      rw [slot, hv]
      rfl
    exact this ▸ hslot

/-- A longer list has the items of the list before. -/
theorem filledTo_padList (s : Store) (l n : Nat) : s.FilledTo (s.padList l n) := by
  have hlist : (s.padList l n).lists.get l = s.lists.get l ++
      List.replicate (n - (s.lists.get l).length) .null ∨ s.padList l n = s := by
    by_cases hl : l < s.lists.size
    · exact .inl (Pool.get_set_self hl _)
    · exact .inr (by rw [padList, setList, Pool.set_of_not_lt hl])
  rcases hlist with hlist | hsame
  · have hother {k : Nat} (hk : k ≠ l) : (s.padList l n).lists.get k = s.lists.get k :=
      Pool.get_set_of_ne hk s.lists _
    refine ⟨fun o ho => ?_, fun e v hv _ => ?_, fun h => ?_, fun k => ?_⟩
    · cases o <;> simpa [Has, padList, setList] using ho
    · rcases e with ⟨k, i⟩ | ⟨id | id, name⟩ | c | ⟨k, name⟩
      · rw [Entry.value?] at hv ⊢
        by_cases hk : k = l
        · subst hk
          rw [hlist, List.getElem?_append_left (List.getElem?_eq_some_iff.1 hv).1, hv]
        · rw [hother hk, hv]
      all_goals exact hv
    · cases h <;> exact List.prefix_refl _
    · by_cases hk : k = l
      · subst hk
        rw [hlist, List.length_append]
        exact Nat.le_add_right ..
      · exact Nat.le_of_eq (congrArg List.length (hother hk)).symm
  · rw [hsame]
    exact .refl s

/-! ### Adding objects -/

/-- Objects may have been added, of which nothing held one before. All else is as it was. -/
def Adds (s t : Store) : Prop :=
  s.Unchanged t ∧ ∀ (h : Holder) (e : Entry), e.value? s = some h.value → t.Has h.place →
    s.Has h.place

/-- The object is in the store, or something holds it. -/
def Refers (s : Store) (h : Holder) : Prop := s.Has h.place ∨ ∃ e : Entry, e.value? s = some h.value

theorem Refers.of_filledTo (hs : s.Refers h) (hst : s.FilledTo t) : t.Refers h :=
  hs.imp (hst.has _) fun ⟨e, he⟩ => ⟨e, hst.kept e _ he (not_isBlank_value h)⟩

/-- A new map without names gives no object a name. -/
theorem slots_addMap_empty (s : Store) (h : Holder) : (s.addMap .empty).2.slots h = s.slots h := by
  cases h with
  | bean id => rfl
  | map id =>
    by_cases hid : id < s.maps.size
    · exact Pool.get_add_of_lt hid _
    · by_cases hnew : id = s.maps.size
      · subst hnew
        exact (Pool.get_add_self s.maps .empty).trans (Pool.get_of_not_lt hid).symm
      · have hno : ¬ id < (s.maps.add Table.empty).2.size := by
          rw [Pool.size_add]
          omega
        exact (Pool.get_of_not_lt hno).trans (Pool.get_of_not_lt hid).symm

end Store

/-! ## Creating a slot -/

namespace Pointer

open PathQuery.Action

variable {factory : Option ObjectFactory} {p : Pointer} {h : Holder} {name : QName} {s : Store}

/-- **A new object leaves everything as it was**, the slot that it is for included. -/
theorem result_newObject (hf : ∀ f ∈ factory, f.Keeps Store.Adds) (p : Pointer) (h : Holder)
    (name : QName) (s : Store) :
    ∃ v t, (p.newObject factory h name).result s = (.ok v, t) ∧ s.Unchanged t ∧
      (s.Refers h → t.slot h name.text = s.slot h name.text) := by
  -- If the store has no such object yet but something refers to it, no new object is that one.
  let P (t : Store) : Prop :=
    s.Unchanged t ∧ (¬ s.Has h.place → s.Refers h → t.slots h = .empty)
  have hadds {t u : Store} (ht : P t) (htu : t.Unchanged u) (hsame : t.slots h = u.slots h) :
      P u := ⟨ht.1.trans htu, fun hno hrefers => hsame ▸ ht.2 hno hrefers⟩
  have hmade : (p.newObject factory h name).Makes P s := by
    refine newObject_makes ⟨.refl s, fun hno _ => Store.slots_of_not_has hno⟩ ?_ ?_ ?_
    · intro f hfactory parent key i t ht
      obtain ⟨htu, hnew⟩ := hf f hfactory parent key i t
      refine ⟨ht.1.trans htu, fun hno hrefers => ?_⟩
      by_cases hhas : t.Has h.place
      · rw [Store.slots_congr (htu _ hhas).2, ht.2 hno hrefers]
      · refine Store.slots_of_not_has fun hafter => ?_
        obtain ⟨e, he⟩ := hrefers.resolve_left hno
        exact hhas (hnew h e (ht.1.filledTo.kept e _ he (Store.not_isBlank_value h)) hafter)
    · exact fun t ht => hadds ht (t.unchanged_addMap .empty) (t.slots_addMap_empty h).symm
    · intro t id template ht hbean htemplate
      have hhas : t.Has (.bean id) := by
        by_contra hno
        rw [Pool.get_of_not_lt hno] at htemplate
        cases htemplate
      have hfresh := template.unchanged_fresh t
      subst hbean
      exact hadds ht hfresh (Store.slots_congr (h := .bean id) (hfresh _ hhas).2).symm
  obtain ⟨v, t, hresult, hst, hnew⟩ := hmade
  refine ⟨v, t, hresult, hst, fun hrefers => ?_⟩
  by_cases hhas : s.Has h.place
  · rw [Store.slot, Store.slot, Store.slots_congr (hst _ hhas).2]
  · rw [Store.slot, Store.slot, hnew hhas hrefers, Store.slots_of_not_has hhas]

theorem isBlank_of_isNull {v : Value} (hv : (s.unwrap v).isNull = true) : s.IsBlank v :=
  ⟨_, Value.isNull_iff.1 hv⟩

/-- A blank slot is written after objects were made. -/
theorem putSlot_filledTo {t : Store} {key : String} (hst : s.Unchanged t)
    (hslot : t.slot h key = s.slot h key) (hblank : s.IsBlank (s.slot h key)) (v : Value) :
    s.FilledTo ((putSlot h key v).result t).2 := by
  rw [result_putSlot]
  cases hput : t.putSlot h key v with
  | error e => exact hst.filledTo
  | ok u =>
    have hentry : t.slotEntry h key = s.slotEntry h key := by
      rw [Store.slotEntry, Store.slotEntry, hslot]
    have hchange := hst.changedTo (Store.changedTo_putSlot hput)
    rw [hentry] at hchange
    exact hchange.filledTo fun v hv => Store.isBlank_slotEntry h key hblank hv

/-- An item that is null is written after objects were made. -/
theorem putListItem_filledTo {t : Store} {l i : Nat} (hst : s.Unchanged t)
    (hnull : (s.lists.get l).getD i .null = .null) (v : Value) :
    s.FilledTo (t.putListItem l i v) := by
  refine (hst.changedTo (Store.changedTo_putListItem t l i v)).filledTo fun w hw => ?_
  rw [Entry.value?] at hw
  rw [List.getD_eq_getElem?_getD, hw, Option.getD_some] at hnull
  exact hnull ▸ s.isBlank_null

/-- **What its parts keep, the making of a slot keeps.** An object is put into a slot or an item
where nothing is, a list is made longer, or a new list is put into a slot. -/
theorem createSlot_keeps {R : Store → Store → Prop} [IsPreorder Store R]
    (hfill : ∀ s : Store, s.IsBlank (s.slot h name.text) →
      R s ((p.newObject factory h name >>= putSlot h name.text).result s).2)
    (hpad : ∀ (s : Store) (l n : Nat), R s (s.padList l n))
    (hitem : ∀ (s : Store) (l i : Nat), (s.lists.get l).getD i .null = .null →
      R s ((p.newObject factory h name >>= fun v => change (·.putListItem l i v)).result s).2)
    (hlist : ∀ s : Store, s.IsBlank (s.slot h name.text) →
      R s ((putSlot h name.text (.list s.lists.size)).result (s.addList []).2).2) :
    (p.createSlot factory h name).Keeps R := by
  have hfillSlot (s : Store) : R s ((p.fillSlot factory h name).result s).2 := by
    rw [fillSlot, result_bind_ok (result_get s)]
    split
    · next hnull => exact hfill s (isBlank_of_isNull hnull)
    · exact refl s
  have hcreateItem (l i : Nat) (s : Store) :
      R s ((createSlot.createItem factory p h name l i).result s).2 := by
    rw [createSlot.createItem, result_bind_ok (result_change ..), result_bind_ok (result_get _)]
    refine trans_of R (hpad s l (i + 1)) ?_
    split
    · next hnull => exact hitem _ l i (Value.isNull_iff.1 hnull)
    · exact refl _
  intro s
  rw [createSlot]
  cases hindex : p.node.index with
  | whole =>
    rw [result_bind_ok (result_place_whole "property" hindex)]
    exact hfillSlot s
  | element i =>
    cases hk : (Index.element i).place? with
    | none =>
      rw [result_bind_error (result_place_none "property" hindex hk)]
      exact refl s
    | some k =>
      rw [result_bind_ok (result_place_element "property" hindex hk), result_bind_ok (result_get s)]
      dsimp only
      split
      · exact hcreateItem _ k s
      · split
        · exact hfillSlot s
        · split
          · next hnull =>
            have hmake : (make (·.addList [])).result s =
                (.ok s.lists.size, (s.addList []).2) := rfl
            have hput := hlist s (isBlank_of_isNull hnull)
            rw [result_bind_ok hmake, result_bind]
            split
            · next t ht =>
              rw [ht] at hput
              exact trans_of R hput (hcreateItem _ k t)
            · next t ht =>
              rw [ht] at hput
              exact hput
          · exact refl s

/-- **Making a slot, or an element of the list in it, only fills.** -/
theorem createSlot_filledTo (hf : ∀ f ∈ factory, f.Keeps Store.Adds) (hh : s.Refers h) :
    s.FilledTo ((p.createSlot factory h name).result s).2 := by
  let R (s t : Store) : Prop := s.Refers h → s.FilledTo t
  have : IsPreorder Store R :=
    { refl := fun s _ => .refl s
      trans := fun _ _ _ hst htu hs => (hst hs).trans (htu (hs.of_filledTo (hst hs))) }
  have hkeeps : (p.createSlot factory h name).Keeps R := by
    refine createSlot_keeps (fun s hblank hs => ?_) (fun s l n _ => s.filledTo_padList l n)
      (fun s l i hnull _ => ?_) fun s hblank _ => putSlot_filledTo (s.unchanged_addList [])
        (s.slot_addList [] h name.text) hblank _
    · obtain ⟨v, t, hmade, hst, hslot⟩ := result_newObject hf p h name s
      rw [result_bind_ok hmade]
      exact putSlot_filledTo hst (hslot hs) hblank v
    · obtain ⟨v, t, hmade, hst, -⟩ := result_newObject hf p h name s
      rw [result_bind_ok hmade, result_change]
      exact putListItem_filledTo hst hnull v
  exact hkeeps s hh

end Pointer

end PathQuery
