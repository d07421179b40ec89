import PathQuery.Pointer.Write
import PathQuery.Proofs.Tables
import PathQuery.Proofs.Values

/-!
# Writes and what they leave alone

A pointer addresses one entry of one object: an item of a list, a slot of a map or bean, the content
of a cell, a binding of a scope. Setting its value changes that entry and nothing else, however many
handles lead to the objects and whatever cycles they are on.

* names: `Place`, `Entry`, `Store.slotEntry`, `Node.target?`, `Pointer.target?`; `Store.Unchanged`,
  `Store.ChangedTo`, `Action.WritesAt`.
* **`setValue_local`**: a write that succeeds changes the addressed entry only, and a write that
  fails changes nothing. A list may be made on the way; it is no object of the graph before.
-/

namespace PathQuery

/-! ## Places and entries -/

/-- An object or scope. -/
inductive Place where
  | list (id : Nat)
  | map (id : Nat)
  | bean (id : Nat)
  | cell (id : Nat)
  | foreign (id : Nat)
  | scope (id : Nat)

/-- The place of the object that a value is. -/
def Value.place? : Value → Option Place
  | list id => some (.list id)
  | map id => some (.map id)
  | bean id => some (.bean id)
  | cell id => some (.cell id)
  | _ => none

/-- What is in a place. -/
inductive Content where
  | items (items : List Value)
  | table (entries : Table Value)
  | bean (bean : Bean)
  | value (value : Value)
  | foreign (foreign : Foreign)

namespace Store

/-- The store has the place. -/
def Has (s : Store) : Place → Prop
  | .list id => id < s.lists.size
  | .map id => id < s.maps.size
  | .bean id => id < s.beans.size
  | .cell id => id < s.cells.size
  | .foreign id => id < s.foreigns.size
  | .scope id => id < s.scopes.size

/-- What is in a place of a store. -/
def content (s : Store) : Place → Content
  | .list id => .items (s.lists.get id)
  | .map id => .table (s.maps.get id)
  | .bean id => .bean (s.beans.get id)
  | .cell id => .value (s.cells.get id)
  | .foreign id => .foreign (s.foreigns.get id)
  | .scope id => .table (s.scopes.get id)

theorem SameGraph.has_iff {s t : Store} (ht : s.SameGraph t) (o : Place) : t.Has o ↔ s.Has o := by
  obtain ⟨now, roots, rfl⟩ := ht
  cases o <;> exact Iff.rfl

end Store

/-- One place of an object that can be written by itself. -/
inductive Entry where
  | item (list i : Nat)
  | slot (holder : Holder) (name : String)
  | content (cell : Nat)
  | binding (scope : Nat) (name : String)
deriving DecidableEq

/-- The place in which an entry is. -/
def Entry.place : Entry → Place
  | item list _ => .list list
  | slot (.map id) _ => .map id
  | slot (.bean id) _ => .bean id
  | content cell => .cell cell
  | binding scope _ => .scope scope

/-- What an entry holds, if there is such an entry. -/
def Entry.value? (s : Store) : Entry → Option Value
  | item list i => (s.lists.get list)[i]?
  | slot h name => (s.slots h).get? name
  | content cell => some (s.cells.get cell)
  | binding scope name => (s.scopes.get scope).get? name

/-- The entry behind a slot: the content of the cell that the slot holds, else the slot itself. -/
def Store.slotEntry (s : Store) (h : Holder) (name : String) : Entry :=
  match s.slot h name with
  | .cell c => .content c
  | _ => .slot h name

/-- The entry that an index selects: an item, if it is an index into a list, else the entry in which
the value itself is. -/
def Store.entryAt? (s : Store) (v : Value) (index : Index) (whole : Entry) : Option Entry :=
  match index, index.place? with
  | .whole, _ => some whole
  | .element _, none => none
  | .element _, some i =>
    match s.listId? v with
    | some l => some (.item l i)
    | none => some whole

/-- The entry that a link names; a value has none of its own. -/
def Node.target? (s : Store) : Node → Option Entry
  | slot h name index _ => s.entryAt? (s.slot h name.text) index (s.slotEntry h name.text)
  | node@(var scope name index) => s.entryAt? (node.base s) index (.binding scope name.text)
  | items list _ (.element i) => (Index.element i).place?.map (.item list)
  | cell id _ => some (.content id)
  | _ => none

namespace Pointer

/-- The entry that a missing node would fill: the slot of the map above it. -/
def missingTarget? (r : Registry) (s : Store) (p : Pointer) : Option Entry :=
  match p.parent?, p.node with
  | some parent, .missing name index isAttribute =>
    match parent.value s r with
    | .ok (.map id) => (Node.slot (.map id) name index isAttribute).target? s
    | _ => none
  | _, _ => none

/-- The entry addressed by a visit below the chain `above`. -/
def entryAt? (r : Registry) (s : Store) (locale : Locale) (visit : Visit) (above : List Visit) :
    Option Entry :=
  match visit.node, above with
  | .missing .., _ => missingTarget? r s { visit, above, locale }
  | .element .., _ | .markupText .., _ => none
  | .items _ _ .whole, parent :: above | .map .., parent :: above | .bean .., parent :: above
  | .leaf .., parent :: above | .null _, parent :: above => entryAt? r s locale parent above
  | node, _ => node.target? s

/-- The entry that a pointer addresses: the one that its own link names or, for a value, the one
that holds it. -/
def target? (r : Registry) (s : Store) (p : Pointer) : Option Entry :=
  entryAt? r s p.locale p.visit p.above

end Pointer

/-! ## Changes of one entry -/

/-- The items are those of another list but for one place, and nulls up to it. -/
structure ItemsAgreeBut (i : Nat) (items items' : List Value) : Prop where
  length : items'.length = max items.length (i + 1)
  others : ∀ j ≠ i, j < items'.length → items'[j]? = some (items.getD j .null)

/-- The names and values of a table are those of another but for one name, which keeps its place or
comes last. -/
structure Table.AgreesBut {α : Type} (name : String) (t t' : Table α) : Prop where
  keys : t'.keys = if name ∈ t.keys then t.keys else t.keys ++ [name]
  others : ∀ k ≠ name, t'.get? k = t.get? k

/-- In its place, a store differs from another at the entry only. -/
def Entry.IsOnlyChange (s t : Store) : Entry → Prop
  | item list i => ItemsAgreeBut i (s.lists.get list) (t.lists.get list)
  | slot (.map id) name => (s.maps.get id).AgreesBut name (t.maps.get id)
  | slot (.bean id) name =>
    ∃ properties, t.beans.get id = { s.beans.get id with properties } ∧
      properties.keys = (s.beans.get id).properties.keys ∧
      (s.beans.get id).properties.AgreesBut name properties
  | content _ => True
  | binding scope name => (s.scopes.get scope).AgreesBut name (t.scopes.get scope)

namespace Store

/-- Everything that a store has is in another as it was. -/
def Unchanged (s t : Store) : Prop := ∀ o, s.Has o → t.Has o ∧ t.content o = s.content o

/-- Everything that a store has is in another as it was, but for one entry, which holds `w`. -/
structure ChangedTo (e : Entry) (w : Value) (s t : Store) : Prop where
  others : ∀ o ≠ e.place, s.Has o → t.Has o ∧ t.content o = s.content o
  entry : s.Has e.place → t.Has e.place ∧ e.IsOnlyChange s t ∧ e.value? t = some w

end Store

theorem length_putItem (items : List Value) (i : Nat) (v : Value) :
    (putItem items i v).length = max items.length (i + 1) := by
  simp only [putItem, List.length_set, List.length_append, List.length_replicate]
  omega

theorem getElem?_putItem (items : List Value) (i : Nat) (v : Value) :
    (putItem items i v)[i]? = some v := by
  have h : i < (items ++ List.replicate (i + 1 - items.length) Value.null).length := by
    simp only [List.length_append, List.length_replicate]
    omega
  rw [putItem, List.getElem?_set_self h]

theorem putItem_nil (i : Nat) (v : Value) : putItem [] i v = List.replicate i .null ++ [v] := by
  rw [putItem, List.nil_append, List.length_nil, Nat.sub_zero, List.replicate_succ',
    List.set_append_right _ _ (by simp), List.length_replicate, Nat.sub_self, List.set_cons_zero]

theorem itemsAgreeBut_putItem (items : List Value) (i : Nat) (v : Value) :
    ItemsAgreeBut i items (putItem items i v) := by
  refine ⟨length_putItem .., fun j hj hlt => ?_⟩
  rw [length_putItem] at hlt
  rw [putItem, List.getElem?_set_ne hj.symm, List.getElem?_append]
  split
  · next h => simp [List.getD_eq_getElem?_getD, List.getElem?_eq_getElem h]
  · next h =>
    rw [List.getElem?_replicate, if_pos (by omega), List.getD_eq_getElem?_getD,
      List.getElem?_eq_none (by omega)]
    rfl

theorem Table.agreesBut_insert {α : Type} (t : Table α) (name : String) (v : α) :
    t.AgreesBut name (t.insert name v) :=
  ⟨t.keys_insert name v, fun _ hk => get?_insert_of_ne hk t v⟩

theorem Bean.assign_eq_ok {b b' : Bean} {name kind : String} {v : Value}
    (h : b.assign name kind v = .ok b') :
    b.properties.has name = true ∧ b' = { b with properties := b.properties.insert name v } := by
  rw [assign] at h
  split at h
  · cases h
  · split at h
    · cases h
    · split at h
      · next hhas => exact ⟨hhas, (Except.ok.inj h).symm⟩
      · cases h

namespace Store

variable {s t u : Store} {e : Entry}

theorem Unchanged.refl (s : Store) : s.Unchanged s := fun _ h => ⟨h, rfl⟩

/-! ### What each write changes -/

theorem changedTo_putListItem (s : Store) (l i : Nat) (v : Value) :
    s.ChangedTo (.item l i) v (s.putListItem l i v) where
  others o ho h := by
    cases o with
    | list k =>
      have hk : k ≠ l := fun hk => ho (congrArg Place.list hk)
      exact ⟨by simpa [Has, putListItem, setList] using h,
        congrArg Content.items (Pool.get_set_of_ne hk s.lists _)⟩
    | _ => exact ⟨h, rfl⟩
  entry h := by
    have hget : (s.putListItem l i v).lists.get l = putItem (s.lists.get l) i v :=
      Pool.get_set_self h _
    refine ⟨by simpa [Has, putListItem, setList] using h, ?_, ?_⟩
    · simpa only [Entry.IsOnlyChange, hget] using itemsAgreeBut_putItem ..
    · simpa only [Entry.value?, hget] using getElem?_putItem ..

theorem changedTo_setMap (s : Store) (id : Nat) (name : String) (v : Value) :
    s.ChangedTo (.slot (.map id) name) v (s.setMap id ((s.maps.get id).insert name v)) where
  others o ho h := by
    cases o with
    | map k =>
      have hk : k ≠ id := fun hk => ho (congrArg Place.map hk)
      exact ⟨by simpa [Has, setMap] using h,
        congrArg Content.table (Pool.get_set_of_ne hk s.maps _)⟩
    | _ => exact ⟨h, rfl⟩
  entry h := by
    have hget := Pool.get_set_self h ((s.maps.get id).insert name v)
    refine ⟨by simpa [Has, setMap] using h, ?_, ?_⟩
    · simpa only [Entry.IsOnlyChange, setMap, hget] using Table.agreesBut_insert ..
    · simp only [Entry.value?, slots, setMap, hget, Table.get?_insert_self]

theorem changedTo_setBean {id : Nat} {name kind : String} {v : Value} {bean : Bean}
    (hassign : (s.beans.get id).assign name kind v = .ok bean) :
    s.ChangedTo (.slot (.bean id) name) v (s.setBean id bean) where
  others o ho h := by
    cases o with
    | bean k =>
      have hk : k ≠ id := fun hk => ho (congrArg Place.bean hk)
      exact ⟨by simpa [Has, setBean] using h,
        congrArg Content.bean (Pool.get_set_of_ne hk s.beans _)⟩
    | _ => exact ⟨h, rfl⟩
  entry h := by
    obtain ⟨hhas, rfl⟩ := Bean.assign_eq_ok hassign
    have hget := Pool.get_set_self h
      { s.beans.get id with properties := (s.beans.get id).properties.insert name v }
    refine ⟨by simpa [Has, setBean] using h, ⟨_, hget, ?_, Table.agreesBut_insert ..⟩, ?_⟩
    · rw [Table.keys_insert, if_pos (Table.has_iff.1 hhas)]
    · simp only [Entry.value?, slots, setBean, hget, Table.get?_insert_self]

theorem changedTo_setCell (s : Store) (c : Nat) (v : Value) :
    s.ChangedTo (.content c) v (s.setCell c v) where
  others o ho h := by
    cases o with
    | cell k =>
      have hk : k ≠ c := fun hk => ho (congrArg Place.cell hk)
      exact ⟨by simpa [Has, setCell] using h,
        congrArg Content.value (Pool.get_set_of_ne hk s.cells _)⟩
    | _ => exact ⟨h, rfl⟩
  entry h :=
    ⟨by simpa [Has, setCell] using h, trivial, congrArg some (Pool.get_set_self h _)⟩

theorem changedTo_setScope (s : Store) (k : Nat) (name : String) (v : Value) :
    s.ChangedTo (.binding k name) v (s.setScope k ((s.scopes.get k).insert name v)) where
  others o ho h := by
    cases o with
    | scope j =>
      have hj : j ≠ k := fun hj => ho (congrArg Place.scope hj)
      exact ⟨by simpa [Has, setScope] using h,
        congrArg Content.table (Pool.get_set_of_ne hj s.scopes _)⟩
    | _ => exact ⟨h, rfl⟩
  entry h := by
    have hget := Pool.get_set_self h ((s.scopes.get k).insert name v)
    refine ⟨by simpa [Has, setScope] using h, ?_, ?_⟩
    · simpa only [Entry.IsOnlyChange, setScope, hget] using Table.agreesBut_insert ..
    · simp only [Entry.value?, setScope, hget, Table.get?_insert_self]

/-- A slot is written at the entry behind it. -/
theorem changedTo_putSlot {h : Holder} {name : String} {v : Value}
    (ht : s.putSlot h name v = .ok t) : s.ChangedTo (s.slotEntry h name) v t := by
  unfold putSlot at ht
  split at ht
  · next c _ hc =>
    cases ht
    rw [slotEntry, hc]
    exact changedTo_setCell ..
  · next id hc =>
    cases ht
    rw [slotEntry]
    split
    · next c hc' => exact absurd hc' (hc c)
    · exact changedTo_setMap ..
  · next id hc =>
    rw [slotEntry]
    split
    · next c hc' => exact absurd hc' (hc c)
    · dsimp only at ht
      split at ht
      · next hassign =>
        cases ht
        exact changedTo_setBean hassign
      · cases ht

/-! ### Beside a new list -/

theorem isOnlyChange_congr {s' t' : Store} (hs : s'.content e.place = s.content e.place)
    (ht : t'.content e.place = t.content e.place) (h : e.IsOnlyChange s t) :
    e.IsOnlyChange s' t' := by
  rcases e with _ | ⟨_ | _⟩ | _ | _ <;>
    simp_all [Entry.IsOnlyChange, Entry.place, content]

theorem value?_congr (h : t.content e.place = s.content e.place) : e.value? t = e.value? s := by
  rcases e with _ | ⟨_ | _⟩ | _ | _ <;> simp_all [Entry.value?, Entry.place, content, slots]

theorem unchanged_addList (s : Store) (items : List Value) : s.Unchanged (s.addList items).2 := by
  intro o h
  cases o with
  | list k =>
    refine ⟨?_, congrArg Content.items (Pool.get_add_of_lt h _)⟩
    exact Nat.lt_of_lt_of_eq (Nat.lt_succ_of_lt h) (Pool.size_add ..).symm
  | _ => exact ⟨h, rfl⟩

theorem Unchanged.changedTo {w : Value} (hu : s.Unchanged t) (h : t.ChangedTo e w u) :
    s.ChangedTo e w u where
  others o ho hs := by
    obtain ⟨ht, hst⟩ := hu o hs
    obtain ⟨hu, htu⟩ := h.others o ho ht
    exact ⟨hu, htu.trans hst⟩
  entry hs := by
    obtain ⟨ht, hst⟩ := hu _ hs
    obtain ⟨hu, hchange, hw⟩ := h.entry ht
    exact ⟨hu, isOnlyChange_congr hst.symm rfl hchange, hw⟩

theorem ChangedTo.putListItem {w : Value} {l : Nat} (h : s.ChangedTo e w t)
    (hl : ¬ s.Has (.list l)) (i : Nat) (v : Value) : s.ChangedTo e w (t.putListItem l i v) := by
  have hother (o : Place) (hs : s.Has o) (ht : t.Has o) :
      (t.putListItem l i v).Has o ∧ (t.putListItem l i v).content o = t.content o :=
    (changedTo_putListItem t l i v).others o (by rintro rfl; exact hl hs) ht
  refine ⟨fun o ho hs => ?_, fun hs => ?_⟩
  · obtain ⟨ht, hst⟩ := h.others o ho hs
    exact ⟨(hother o hs ht).1, (hother o hs ht).2.trans hst⟩
  · obtain ⟨ht, hchange, hw⟩ := h.entry hs
    obtain ⟨ht', hcontent⟩ := hother _ hs ht
    exact ⟨ht', isOnlyChange_congr rfl hcontent hchange, (value?_congr hcontent).trans hw⟩

theorem slotEntry_place_ne_list (s : Store) (h : Holder) (name : String) (l : Nat) :
    .list l ≠ (s.slotEntry h name).place := by
  rw [slotEntry]
  split
  · nofun
  · cases h <;> nofun

end Store

/-! ## What a write does -/

namespace Action

/-- The value, or a new list in which it comes after nulls. -/
def Wrote (s t : Store) (v w : Value) : Prop :=
  w = v ∨ ∃ l i, w = .list l ∧ ¬ s.Has (.list l) ∧ t.lists.get l = List.replicate i .null ++ [v]

/-- The action writes a value at the entry, or fails and changes nothing. -/
def WritesAt (e : Option Entry) (v : Value) (s : Store) (a : Action Unit) : Prop :=
  match a.result s with
  | (.ok _, t) => ∃ e' w, e = some e' ∧ s.ChangedTo e' w t ∧ Wrote s t v w
  | (.error _, t) => s.Unchanged t

variable {s : Store} {e : Entry} {e? : Option Entry} {v : Value} {a : Action Unit}

theorem writesAt_error {err : PathError} (h : a.result s = (.error err, s)) :
    a.WritesAt e? v s := by
  rw [WritesAt, h]
  exact .refl s

theorem writesAt_ok {t : Store} (h : a.result s = (.ok (), t)) (ht : s.ChangedTo e v t) :
    a.WritesAt (some e) v s := by
  rw [WritesAt, h]
  exact ⟨e, v, rfl, ht, .inl rfl⟩

/-- An action that reads first. -/
theorem writesAt_bind {α : Type} {b : Action α} {f : α → Action Unit} {x : α}
    (h : b.result s = (.ok x, s)) (hf : (f x).WritesAt e? v s) : (b >>= f).WritesAt e? v s := by
  rwa [WritesAt, result_bind_ok h]

theorem result_putSlot (h : Holder) (name : String) (v : Value) (s : Store) :
    (putSlot h name v).result s =
      match s.putSlot h name v with
      | .ok t => (.ok (), t)
      | .error err => (.error err, s) := by
  rw [putSlot, result_bind, result_read]
  cases s.putSlot h name v <;> rfl

theorem writesAt_putSlot (h : Holder) (name : String) :
    (putSlot h name v).WritesAt (some (s.slotEntry h name)) v s := by
  cases ht : s.putSlot h name v with
  | ok t => exact writesAt_ok (by rw [result_putSlot, ht]) (Store.changedTo_putSlot ht)
  | error err => exact writesAt_error (by rw [result_putSlot, ht])

/-- An empty slot is filled with a new list. -/
theorem writesAt_putList (h : Holder) (name : String) (i : Nat) :
    WritesAt (some (s.slotEntry h name)) v s (do
      let l ← make (·.addList [])
      putSlot h name (.list l)
      change (·.putListItem l i v)) := by
  set l := s.lists.size with hl
  set s₁ := (s.addList []).2 with hs₁
  have hmake : (make (·.addList [])).result s = (.ok l, s₁) := rfl
  have hentry : s₁.slotEntry h name = s.slotEntry h name := by cases h <;> rfl
  have hfresh : s.Unchanged s₁ := s.unchanged_addList []
  have hl₁ : s₁.lists.get l = [] := Pool.get_add_self s.lists []
  unfold WritesAt
  rw [result_bind_ok hmake, result_bind, result_putSlot]
  cases ht : s₁.putSlot h name (.list l) with
  | error err => exact hfresh
  | ok t =>
    have hput := Store.changedTo_putSlot ht
    rw [hentry] at hput
    have hnew : ¬ s.Has (.list l) := Nat.lt_irrefl _
    obtain ⟨hlt, hlist⟩ := hput.others (.list l) (s.slotEntry_place_ne_list h name l)
      (by simp [Store.Has, hs₁, hl, Store.addList])
    have hget : (t.putListItem l i v).lists.get l = List.replicate i .null ++ [v] := by
      have hnil : t.lists.get l = [] := by simpa [Store.content, hl₁] using hlist
      rw [Store.putListItem, Store.setList, Pool.get_set_self hlt, hnil, putItem_nil]
    exact ⟨_, .list l, rfl, (hfresh.changedTo hput).putListItem hnew i v,
      .inr ⟨l, i, rfl, hnew, hget⟩⟩

theorem writesAt_putListItem (l i : Nat) :
    (change (·.putListItem l i v)).WritesAt (some (.item l i)) v s :=
  writesAt_ok (result_change ..) (Store.changedTo_putListItem ..)

end Action

namespace Pointer

open PathQuery.Action

variable {s : Store} {r : Registry} {p : Pointer} {v : Value}

theorem result_place_whole (kind : String) (h : p.node.index = .whole) :
    (p.place kind).result s = (.ok none, s) := by
  simp only [place, h, result_pure]

theorem result_place_element (kind : String) {i : Int} {k : Nat} (h : p.node.index = .element i)
    (hk : (Index.element i).place? = some k) : (p.place kind).result s = (.ok (some k), s) := by
  simp only [place, h, hk]
  rfl

theorem result_place_none (kind : String) {i : Int} (h : p.node.index = .element i)
    (hk : (Index.element i).place? = none) :
    (p.place kind).result s = (.error (.refused kind (.outOfBounds (i + 1) (p.path s))), s) := by
  simp only [place, h, hk]
  rfl

/-- To look for a place changes nothing. -/
theorem result_place_cases (p : Pointer) (kind : String) (s : Store) :
    (∃ i, (p.place kind).result s = (.ok i, s)) ∨ ∃ e, (p.place kind).result s = (.error e, s) := by
  cases hindex : p.node.index with
  | whole => exact .inl ⟨_, result_place_whole kind hindex⟩
  | element i =>
    cases hk : (Index.element i).place? with
    | none => exact .inr ⟨_, result_place_none kind hindex hk⟩
    | some k => exact .inl ⟨_, result_place_element kind hindex hk⟩

/-- A write that depends on where an index leads. -/
theorem writesAt_place {f : Option Nat → Action Unit} {w : Value} {whole : Entry} (kind : String)
    (hwhole : (f none).WritesAt (some whole) v s)
    (hitem : ∀ i l, s.listId? w = some l → (f (some i)).WritesAt (some (.item l i)) v s)
    (hsole : ∀ i, s.listId? w = none → (f (some i)).WritesAt (some whole) v s) :
    (p.place kind >>= f).WritesAt (s.entryAt? w p.node.index whole) v s := by
  cases hindex : p.node.index with
  | whole =>
    exact writesAt_bind (result_place_whole kind hindex) hwhole
  | element i =>
    cases hk : (Index.element i).place? with
    | none => exact writesAt_error (result_bind_error (result_place_none kind hindex hk))
    | some k =>
      refine writesAt_bind (result_place_element kind hindex hk) ?_
      cases hl : s.listId? w with
      | some l => simpa only [Store.entryAt?, hk, hl] using hitem k l hl
      | none => simpa only [Store.entryAt?, hk, hl] using hsole k hl

/-! ### Setting through each kind of link -/

theorem writesAt_setSlot {h : Holder} {name : QName} {index : Index} {isAttribute : Bool}
    (hp : p.node = .slot h name index isAttribute) :
    (p.setSlot h name v).WritesAt ((Node.slot h name index isAttribute).target? s) v s := by
  obtain rfl : p.node.index = index := by rw [hp]; rfl
  refine writesAt_place "property" (writesAt_putSlot ..) (fun i l hl => ?_) fun i hl => ?_
  · have hheld : s.unwrap (s.slot h name.text) = .list l := by
      rw [Store.listId?] at hl
      split at hl <;> simp_all
    refine writesAt_bind (result_get s) ?_
    simp only [hheld]
    exact writesAt_putListItem l i
  · refine writesAt_bind (result_get s) ?_
    dsimp only
    split
    · next l hheld => simp [Store.listId?, hheld] at hl
    · split
      · exact writesAt_putSlot ..
      · split
        · exact writesAt_putList ..
        · exact writesAt_error (result_throw ..)

theorem writesAt_setVariable {scope : Nat} {name : QName} {index : Index}
    (hp : p.node = .var scope name index) :
    (p.setVariable scope name v).WritesAt ((Node.var scope name index).target? s) v s := by
  have hentry : (Node.var scope name index).target? s =
      s.entryAt? (p.base s) p.node.index (.binding scope name.text) := by rw [base, hp]; rfl
  have hdeclare : WritesAt (some (.binding scope name.text)) v s
      (change fun s => s.setScope scope ((s.scopes.get scope).insert name.text v)) :=
    writesAt_ok (result_change ..) (Store.changedTo_setScope ..)
  rw [hentry]
  refine writesAt_place "variable" hdeclare (fun i l hl => ?_) fun i hl => ?_
  · refine writesAt_bind (result_get s) ?_
    simp only [hl]
    exact writesAt_putListItem l i
  · refine writesAt_bind (result_get s) ?_
    simp only [hl]
    split
    · exact hdeclare
    · exact writesAt_error (result_throw ..)

theorem writesAt_setMissing {name : QName} {index : Index} {isAttribute : Bool}
    (hp : p.node = .missing name index isAttribute) :
    (p.setMissing r v).WritesAt (p.missingTarget? r s) v s := by
  refine writesAt_bind (result_get s) ?_
  cases hparent : p.parent? with
  | none => exact writesAt_error (result_throw ..)
  | some parent =>
    simp only [hp]
    split
    · exact writesAt_error (result_throw ..)
    · have hread := result_read (fun s => parent.value s r) s
      cases hvalue : parent.value s r with
      | error err => exact writesAt_error (result_bind_error (hvalue ▸ hread))
      | ok w =>
        refine writesAt_bind (hvalue ▸ hread) ?_
        cases w with
        | map id =>
          have hentry : p.missingTarget? r s =
              (Node.slot (.map id) name index isAttribute).target? s := by
            simp only [missingTarget?, hparent, hp, hvalue]
          rw [hentry]
          exact writesAt_setSlot rfl
        | _ => exact writesAt_error (result_throw ..)

theorem writesAt_setItem {list : Nat} {name : Option QName} {i : Int}
    (hp : p.node = .items list name (.element i)) :
    WritesAt ((Node.items list name (.element i)).target? s) v s (do
      match ← p.place "collection" with
      | some i => change (·.putListItem list i v)
      | none => pure ()) := by
  have hindex : p.node.index = .element i := by rw [hp]; rfl
  rw [Node.target?]
  cases hk : (Index.element i).place? with
  | none => exact writesAt_error (result_bind_error (result_place_none "collection" hindex hk))
  | some k =>
    exact writesAt_bind (result_place_element "collection" hindex hk) (writesAt_putListItem list k)

/-! ### Setting at a pointer -/

theorem writesAt_setAt (locale : Locale) (visit : Visit) (above : List Visit) :
    (setAt r locale v visit above).WritesAt (entryAt? r s locale visit above) v s := by
  let p : Pointer := { visit, above, locale }
  -- Only a value looks at the chain above it; a link decides by itself.
  unfold setAt entryAt?
  cases hnode : visit.node with
  | slot => exact writesAt_setSlot (p := p) hnode
  | missing => exact writesAt_setMissing (p := p) hnode
  | var => exact writesAt_setVariable (p := p) hnode
  | cell => exact writesAt_ok (result_change ..) (Store.changedTo_setCell ..)
  | element | markupText => exact writesAt_error (result_throw ..)
  | items list name index =>
    cases index with
    | element i => exact writesAt_setItem (p := p) hnode
    | whole =>
      cases above with
      | nil => exact writesAt_error (result_throw ..)
      | cons parent above => exact writesAt_setAt locale parent above
  | map | bean | null =>
    cases above with
    | nil => exact writesAt_error (result_throw ..)
    | cons parent above => exact writesAt_setAt locale parent above
  | leaf =>
    cases above with
    | nil => exact writesAt_error rfl
    | cons parent above => exact writesAt_setAt locale parent above

/-- **A write is local, and all or nothing.** If it succeeds, it has changed the entry that the
pointer addresses, which holds the value or a new list around it; every other object is as it was,
and so is everything else in the object of the entry. If it fails, nothing has changed. -/
theorem setValue_local (r : Registry) (p : Pointer) (v : Value) (s : Store) :
    match (p.setValue r v).result s with
    | (.ok _, t) => ∃ e w, p.target? r s = some e ∧ s.ChangedTo e w t ∧ Wrote s t v w
    | (.error _, t) => s.Unchanged t :=
  writesAt_setAt p.locale p.visit p.above

end Pointer

end PathQuery
