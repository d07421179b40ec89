import Mathlib.Order.Defs.Unbundled
import PathQuery.Proofs.Writes

/-!
# Making objects

Objects are made beside those that a store has. A template adds what it describes and fills what it
has added, so everything that was there before stays as it was.

* names: `Store.SameBut`, `Draft.Adds`, `Store.Unchanged.trans`, `Store.Unchanged.sameBut`.
* **`unchanged_fresh`**: a fresh copy of a template changes nothing that a store has.
-/

namespace PathQuery

namespace Store

variable {s t u : Store} {o : Place}

/-! ## What stays as it was -/

theorem Unchanged.trans (h : s.Unchanged t) (h' : t.Unchanged u) : s.Unchanged u := by
  intro o ho
  obtain ⟨ht, hst⟩ := h o ho
  obtain ⟨hu, htu⟩ := h' o ht
  exact ⟨hu, htu.trans hst⟩

instance : IsPreorder Store Unchanged where
  refl := .refl
  trans _ _ _ := .trans

/-- Everything that a store has is in another as it was, but for one place. -/
def SameBut (o : Place) (s t : Store) : Prop :=
  ∀ o' ≠ o, s.Has o' → t.Has o' ∧ t.content o' = s.content o'

/-- A change of what was not there before is none of what was. -/
theorem Unchanged.sameBut (h : s.Unchanged t) (h' : t.SameBut o u) (ho : ¬ s.Has o) :
    s.Unchanged u := by
  intro o' ho'
  obtain ⟨ht, hst⟩ := h o' ho'
  obtain ⟨hu, htu⟩ := h' o' (by rintro rfl; exact ho ho') ht
  exact ⟨hu, htu.trans hst⟩

theorem sameBut_setList (s : Store) (l : Nat) (items : List Value) :
    s.SameBut (.list l) (s.setList l items) := by
  intro o ho h
  cases o with
  | list k =>
    have hk : k ≠ l := fun hk => ho (congrArg Place.list hk)
    exact ⟨by simpa [Has, setList] using h,
      congrArg Content.items (Pool.get_set_of_ne hk s.lists _)⟩
  | _ => exact ⟨h, rfl⟩

theorem sameBut_setMap (s : Store) (id : Nat) (entries : Table Value) :
    s.SameBut (.map id) (s.setMap id entries) := by
  intro o ho h
  cases o with
  | map k =>
    have hk : k ≠ id := fun hk => ho (congrArg Place.map hk)
    exact ⟨by simpa [Has, setMap] using h, congrArg Content.table (Pool.get_set_of_ne hk s.maps _)⟩
  | _ => exact ⟨h, rfl⟩

theorem sameBut_setBean (s : Store) (id : Nat) (bean : Bean) :
    s.SameBut (.bean id) (s.setBean id bean) := by
  intro o ho h
  cases o with
  | bean k =>
    have hk : k ≠ id := fun hk => ho (congrArg Place.bean hk)
    exact ⟨by simpa [Has, setBean] using h, congrArg Content.bean (Pool.get_set_of_ne hk s.beans _)⟩
  | _ => exact ⟨h, rfl⟩

theorem sameBut_setCell (s : Store) (c : Nat) (content : Value) :
    s.SameBut (.cell c) (s.setCell c content) := by
  intro o ho h
  cases o with
  | cell k =>
    have hk : k ≠ c := fun hk => ho (congrArg Place.cell hk)
    exact ⟨by simpa [Has, setCell] using h,
      congrArg Content.value (Pool.get_set_of_ne hk s.cells _)⟩
  | _ => exact ⟨h, rfl⟩

/-- A write of what is there changes nothing. -/
theorem set_get {α : Type} [Inhabited α] (p : Pool α) (i : Nat) : p.set i (p.get i) = p := by
  obtain ⟨places⟩ := p
  rw [Pool.set, Pool.get, Pool.mk.injEq]
  by_cases h : i < places.size
  · simp [Array.getD, Array.setIfInBounds, h]
  · exact Array.setIfInBounds_eq_of_size_le (Nat.le_of_not_lt h)

/-- A list that is long enough is not made longer. -/
theorem padList_of_le {l n : Nat} (h : n ≤ (s.lists.get l).length) : s.padList l n = s := by
  rw [padList, Nat.sub_eq_zero_of_le h, List.replicate_zero, List.append_nil, setList, set_get]

/-! ## New objects -/

/-- A new place keeps those of a pool. -/
theorem lt_size_add {α : Type} {p : Pool α} {i : Nat} (h : i < p.size) (a : α) :
    i < (p.add a).2.size :=
  Nat.lt_of_lt_of_eq (Nat.lt_succ_of_lt h) (Pool.size_add ..).symm

theorem unchanged_addMap (s : Store) (entries : Table Value) :
    s.Unchanged (s.addMap entries).2 := by
  intro o h
  cases o with
  | map k => exact ⟨lt_size_add h _, congrArg Content.table (Pool.get_add_of_lt h _)⟩
  | _ => exact ⟨h, rfl⟩

theorem unchanged_addBean (s : Store) (bean : Bean) : s.Unchanged (s.addBean bean).2 := by
  intro o h
  cases o with
  | bean k => exact ⟨lt_size_add h _, congrArg Content.bean (Pool.get_add_of_lt h _)⟩
  | _ => exact ⟨h, rfl⟩

theorem unchanged_addCell (s : Store) (v : Value) : s.Unchanged (s.addCell v).2 := by
  intro o h
  cases o with
  | cell k => exact ⟨lt_size_add h _, congrArg Content.value (Pool.get_add_of_lt h _)⟩
  | _ => exact ⟨h, rfl⟩

theorem unchanged_addForeign (s : Store) (foreign : Foreign) :
    s.Unchanged (s.addForeign foreign).2 := by
  intro o h
  cases o with
  | foreign k => exact ⟨lt_size_add h _, congrArg Content.foreign (Pool.get_add_of_lt h _)⟩
  | _ => exact ⟨h, rfl⟩

theorem not_has_addList (s : Store) (items : List Value) : ¬ s.Has (.list (s.addList items).1) :=
  Nat.lt_irrefl _

theorem not_has_addMap (s : Store) (entries : Table Value) :
    ¬ s.Has (.map (s.addMap entries).1) := Nat.lt_irrefl _

theorem not_has_addBean (s : Store) (bean : Bean) : ¬ s.Has (.bean (s.addBean bean).1) :=
  Nat.lt_irrefl _

theorem not_has_addCell (s : Store) (v : Value) : ¬ s.Has (.cell (s.addCell v).1) :=
  Nat.lt_irrefl _

end Store

/-! ## Drafts -/

namespace Draft

variable {α β : Type} {m : StateM Draft α} {f : α → StateM Draft β}

/-- The draft only adds to the store that it started from. -/
def Adds (m : StateM Draft α) : Prop := ∀ d : Draft, d.store.Unchanged (m.run d).2.store

theorem adds_pure (a : α) : Adds (pure a) := fun d => .refl d.store

theorem Adds.bind (hm : Adds m) (hf : ∀ a, Adds (f a)) : Adds (m >>= f) := fun d =>
  (hm d).trans (hf (m.run d).1 (m.run d).2)

theorem adds_add {g : Store → α × Store} (h : ∀ s : Store, s.Unchanged (g s).2) : Adds (add g) :=
  fun d => h d.store

theorem adds_bind (label : Option String) (v : Value) : Adds (bind label v) := by
  cases label <;> exact fun d => .refl d.store

/-- An object is added, and filled when its contents are there. -/
theorem adds_filled {g : Store → Nat × Store} {place : Nat → Place} {value : Nat → Value}
    {fill : Nat → α → Store → Store} (label : Option String)
    (hadd : ∀ s : Store, s.Unchanged (g s).2) (hnew : ∀ s : Store, ¬ s.Has (place (g s).1))
    (hm : Adds m) (hfill : ∀ id a (s : Store), s.SameBut (place id) (fill id a s)) :
    Adds (do
      let id ← add g
      bind label (value id)
      let a ← m
      edit (fill id a)
      pure (value id)) := by
  intro d
  set id := (g d.store).1
  set d₁ := ((add g).run d).2
  set d₂ := ((bind label (value id)).run d₁).2
  have hcontents : d.store.Unchanged (m.run d₂).2.store :=
    ((adds_add hadd d).trans (adds_bind label (value id) d₁)).trans (hm d₂)
  exact hcontents.sameBut (hfill id (m.run d₂).1 _) (hnew d.store)

end Draft

open Draft

mutual

theorem Markup.adds_build (m : Markup) : Adds m.build := by
  cases m with
  | element name bindings defaultUri attributes text children =>
    rw [Markup.build]
    exact (Markup.adds_buildAll children).bind fun _ =>
      adds_add fun s => s.unchanged_addForeign _

theorem Markup.adds_buildAll (ms : List Markup) : Adds (Markup.buildAll ms) := by
  cases ms with
  | nil =>
    rw [Markup.buildAll]
    exact adds_pure []
  | cons m ms =>
    rw [Markup.buildAll]
    exact (Markup.adds_build m).bind fun _ => (Markup.adds_buildAll ms).bind fun _ => adds_pure _

end

namespace Template

mutual

/-- **Building a template only adds.** -/
theorem adds_build (t : Template) (label : Option String) : Adds (t.build label) := by
  cases t with
  | null | bool | number | text =>
    rw [build]
    exact (adds_bind label _).bind fun _ => adds_pure _
  | list items =>
    rw [build]
    exact adds_filled label (fun s => s.unchanged_addList []) (fun s => s.not_has_addList [])
      (adds_buildAll items) fun l items s => s.sameBut_setList l items
  | map entries =>
    rw [build]
    exact adds_filled label (fun s => s.unchanged_addMap .empty) (fun s => s.not_has_addMap .empty)
      (adds_buildFields entries) fun id entries s => s.sameBut_setMap id (.ofList entries)
  | cell content =>
    rw [build]
    exact adds_filled label (fun s => s.unchanged_addCell .null) (fun s => s.not_has_addCell .null)
      (adds_build content none) fun c content s => s.sameBut_setCell c content
  | bean type properties nested readOnly typed =>
    rw [build]
    exact adds_filled label (fun s => s.unchanged_addBean { type })
      (fun s => s.not_has_addBean { type }) (adds_buildFields properties)
      fun id properties s => s.sameBut_setBean id _
  | foreign kind =>
    rw [build]
    exact (adds_add fun s => s.unchanged_addForeign { kind }).bind fun _ =>
      (adds_bind label _).bind fun _ => adds_pure _
  | markup tree =>
    rw [build]
    exact (Markup.adds_build tree).bind fun _ => (adds_bind label _).bind fun _ => adds_pure _
  | ref name =>
    rw [build]
    exact fun d => adds_bind label _ d
  | labelled name t =>
    rw [build]
    exact adds_build t (some name)

theorem adds_buildAll (ts : List Template) : Adds (buildAll ts) := by
  cases ts with
  | nil =>
    rw [buildAll]
    exact adds_pure []
  | cons t ts =>
    rw [buildAll]
    exact (adds_build t none).bind fun _ => (adds_buildAll ts).bind fun _ => adds_pure _

theorem adds_buildFields (ts : List (String × Template)) : Adds (buildFields ts) := by
  cases ts with
  | nil =>
    rw [buildFields]
    exact adds_pure []
  | cons field ts =>
    obtain ⟨name, t⟩ := field
    rw [buildFields]
    exact (adds_build t none).bind fun _ => (adds_buildFields ts).bind fun _ => adds_pure _

end

/-- **A fresh copy of a template changes nothing that a store has.** -/
theorem unchanged_fresh (t : Template) (s : Store) : s.Unchanged (t.fresh s).2 :=
  adds_build t none { store := s }

end Template

end PathQuery
