import PathQuery.Proofs.ClosedGraphs

/-!
# What beans construct

A bean makes the values of some of its properties from templates. The beans that are made so have
templates of their own, so what is asked of them is asked of every template inside them too.

* names: `Value.IsSolid`, `Template.IsSolid`, `Template.Constructs`, `Store.Constructive`.
* **`constructive_fresh`**: fresh copies of such templates bring in no others.
-/

namespace PathQuery

/-- Something that is no list, and seen without looking through a cell. -/
structure Value.IsSolid (v : Value) : Prop where
  ne_null : v ≠ .null
  ne_cell : ∀ c, v ≠ .cell c
  ne_list : ∀ l, v ≠ .list l

theorem Holder.isSolid_value (h : Holder) : h.value.IsSolid := by
  cases h <;> exact ⟨nofun, nofun, nofun⟩

namespace Template

/-- The template makes something that is no list, and not in a cell: a map, a bean or a scalar. -/
def IsSolid : Template → Prop
  | null | list _ | cell _ | ref _ => False
  | labelled _ t => t.IsSolid
  | _ => True

mutual

/-- All beans in the template construct solid values only. -/
def Constructs : Template → Prop
  | list items => AllConstruct items
  | map entries => FieldsConstruct entries
  | cell content => content.Constructs
  | bean _ properties nested _ _ =>
    FieldsConstruct properties ∧ FieldsConstruct nested ∧ ∀ field ∈ nested, field.2.IsSolid
  | labelled _ t => t.Constructs
  | _ => True

/-- All beans in the templates do. -/
def AllConstruct : List Template → Prop
  | [] => True
  | t :: ts => t.Constructs ∧ AllConstruct ts

/-- All beans in the named templates do. -/
def FieldsConstruct : List (String × Template) → Prop
  | [] => True
  | (_, t) :: ts => t.Constructs ∧ FieldsConstruct ts

end

theorem constructs_of_mem {ts : List (String × Template)} (hts : FieldsConstruct ts)
    {field : String × Template} (h : field ∈ ts) : field.2.Constructs := by
  induction ts with
  | nil => cases h
  | cons f ts ih =>
    rw [FieldsConstruct] at hts
    rcases List.mem_cons.1 h with rfl | h
    · exact hts.1
    · exact ih hts.2 h

end Template

namespace Store

variable {s t : Store}

/-- All beans construct solid values only, and so do the beans among these. -/
def Constructive (s : Store) : Prop :=
  ∀ id name template, (s.beans.get id).makers.get? name = some template →
    template.IsSolid ∧ template.Constructs

theorem Constructive.of_makers (hs : s.Constructive)
    (h : ∀ id, (t.beans.get id).makers = (s.beans.get id).makers) : t.Constructive := by
  intro id name template htemplate
  rw [h id] at htemplate
  exact hs id name template htemplate

theorem Constructive.setBean {id : Nat} {bean : Bean} (hs : s.Constructive)
    (h : ∀ name template, bean.makers.get? name = some template →
      template.IsSolid ∧ template.Constructs) : (s.setBean id bean).Constructive := by
  intro k name template htemplate
  have hget : ((s.setBean id bean).beans.get k).makers.get? name = some template := htemplate
  rcases s.beans.get_set_cases id k bean with hk | hk
  · rw [show (s.setBean id bean).beans.get k = s.beans.get k from hk] at hget
    exact hs k name template hget
  · rw [show (s.setBean id bean).beans.get k = bean from hk] at hget
    exact h name template hget

theorem Constructive.addBean {type : String} (hs : s.Constructive) :
    (s.addBean { type }).2.Constructive := by
  intro k name template htemplate
  have hget : ((s.addBean { type }).2.beans.get k).makers.get? name = some template := htemplate
  rcases s.beans.get_add_cases k { type } with hk | hk
  · rw [show (s.addBean { type }).2.beans.get k = s.beans.get k from hk] at hget
    exact hs k name template hget
  · rw [show (s.addBean { type }).2.beans.get k = { type } from hk] at hget
    cases hget

theorem constructive_empty : ({} : Store).Constructive := fun _ _ _ h => by cases h

/-- Assigning a property leaves the constructors of a bean alone. -/
theorem Constructive.putSlot {h : Holder} {name : String} {v : Value} (hs : s.Constructive)
    (hput : s.putSlot h name v = .ok t) : t.Constructive := by
  unfold Store.putSlot at hput
  split at hput
  · cases hput
    exact hs.of_makers fun _ => rfl
  · cases hput
    exact hs.of_makers fun _ => rfl
  · next id _ =>
    dsimp only at hput
    split at hput
    · next hassign =>
      cases hput
      obtain ⟨-, rfl⟩ := Bean.assign_eq_ok hassign
      exact hs.setBean fun name template => hs id name template
    · cases hput

end Store

/-! ## Fresh copies -/

namespace Draft

variable {α β : Type} {m : StateM Draft α} {f : α → StateM Draft β}

/-- The action brings in no beans that construct anything but solid values. -/
def Constructs (m : StateM Draft α) : Prop :=
  ∀ d : Draft, d.store.Constructive → (m.run d).2.store.Constructive

theorem constructs_pure (a : α) : Constructs (pure a) := fun _ hd => hd

theorem Constructs.bind (hm : Constructs m) (hf : ∀ a, Constructs (f a)) :
    Constructs (m >>= f) := fun d hd => hf (m.run d).1 (m.run d).2 (hm d hd)

theorem constructs_bind (label : Option String) (v : Value) : Constructs (bind label v) := by
  cases label <;> exact fun _ hd => hd

theorem constructs_add {g : Store → α × Store}
    (h : ∀ s : Store, s.Constructive → (g s).2.Constructive) : Constructs (add g) := fun d hd =>
  h d.store hd

theorem constructs_edit {g : Store → Store}
    (h : ∀ s : Store, s.Constructive → (g s).Constructive) : Constructs (edit g) := fun d hd =>
  h d.store hd

/-- An object is added, and filled when its contents are there. -/
theorem constructs_filled {g : Store → Nat × Store} {value : Nat → Value}
    {fill : Nat → α → Store → Store} (label : Option String)
    (hadd : ∀ s : Store, s.Constructive → (g s).2.Constructive) (hm : Constructs m)
    (hfill : ∀ id a (s : Store), s.Constructive → (fill id a s).Constructive) :
    Constructs (do
      let id ← add g
      bind label (value id)
      let a ← m
      edit (fill id a)
      pure (value id)) :=
  (constructs_add hadd).bind fun id => (constructs_bind label _).bind fun _ => hm.bind fun a =>
    (constructs_edit (hfill id a)).bind fun _ => constructs_pure _

end Draft

open Draft

mutual

theorem Markup.constructs_build (m : Markup) : Constructs m.build := by
  cases m with
  | element name bindings defaultUri attributes text children =>
    rw [Markup.build]
    exact (Markup.constructs_buildAll children).bind fun _ =>
      constructs_add fun _ hs => hs.of_makers fun _ => rfl

theorem Markup.constructs_buildAll (ms : List Markup) : Constructs (Markup.buildAll ms) := by
  cases ms with
  | nil =>
    rw [Markup.buildAll]
    exact constructs_pure []
  | cons m ms =>
    rw [Markup.buildAll]
    exact (Markup.constructs_build m).bind fun _ => (Markup.constructs_buildAll ms).bind fun _ =>
      constructs_pure _

end

namespace Template

mutual

theorem constructs_build (t : Template) (label : Option String) (ht : t.Constructs) :
    Draft.Constructs (t.build label) := by
  cases t with
  | null | bool | number | text =>
    rw [build]
    exact (constructs_bind label _).bind fun _ => constructs_pure _
  | list items =>
    rw [Constructs] at ht
    rw [build]
    exact constructs_filled label (fun _ hs => hs.of_makers fun _ => rfl)
      (constructs_buildAll items ht) fun _ _ _ hs => hs.of_makers fun _ => rfl
  | map entries =>
    rw [Constructs] at ht
    rw [build]
    exact constructs_filled label (fun _ hs => hs.of_makers fun _ => rfl)
      (constructs_buildFields entries ht) fun _ _ _ hs => hs.of_makers fun _ => rfl
  | cell content =>
    rw [Constructs] at ht
    rw [build]
    exact constructs_filled label (fun _ hs => hs.of_makers fun _ => rfl)
      (constructs_build content none ht) fun _ _ _ hs => hs.of_makers fun _ => rfl
  | bean type properties nested readOnly typed =>
    rw [Constructs] at ht
    obtain ⟨hproperties, hnested, hsolid⟩ := ht
    rw [build]
    refine constructs_filled label (fun _ hs => hs.addBean)
      (constructs_buildFields properties hproperties) fun _ _ _ hs => hs.setBean ?_
    intro name template htemplate
    obtain ⟨field, hfield, rfl⟩ := List.mem_map.1 (Table.mem_of_get?_ofList htemplate)
    exact ⟨hsolid field hfield, constructs_of_mem hnested hfield⟩
  | foreign kind =>
    rw [build]
    exact (constructs_add fun _ hs => hs.of_makers fun _ => rfl).bind fun _ =>
      (constructs_bind label _).bind fun _ => constructs_pure _
  | markup tree =>
    rw [build]
    exact (Markup.constructs_build tree).bind fun _ => (constructs_bind label _).bind fun _ =>
      constructs_pure _
  | ref name =>
    rw [build]
    exact fun d => constructs_bind label _ d
  | labelled name t =>
    rw [Constructs] at ht
    rw [build]
    exact constructs_build t (some name) ht

theorem constructs_buildAll (ts : List Template) (hts : AllConstruct ts) :
    Draft.Constructs (buildAll ts) := by
  cases ts with
  | nil =>
    rw [buildAll]
    exact constructs_pure []
  | cons t ts =>
    rw [AllConstruct] at hts
    rw [buildAll]
    exact (constructs_build t none hts.1).bind fun _ =>
      (constructs_buildAll ts hts.2).bind fun _ => constructs_pure _

theorem constructs_buildFields (ts : List (String × Template)) (hts : FieldsConstruct ts) :
    Draft.Constructs (buildFields ts) := by
  cases ts with
  | nil =>
    rw [buildFields]
    exact constructs_pure []
  | cons field ts =>
    obtain ⟨name, t⟩ := field
    rw [FieldsConstruct] at hts
    rw [buildFields]
    exact (constructs_build t none hts.1).bind fun _ =>
      (constructs_buildFields ts hts.2).bind fun _ => constructs_pure _

end

/-- What a solid template makes is solid. -/
theorem isSolid_build (t : Template) (label : Option String) (ht : t.IsSolid) (d : Draft) :
    ((t.build label).run d).1.IsSolid := by
  cases t with
  | labelled name t =>
    rw [build]
    exact isSolid_build t (some name) ht d
  | null | list | cell | ref => exact absurd ht id
  | _ =>
    rw [build]
    exact ⟨nofun, nofun, nofun⟩

/-- **A fresh copy of a solid template is solid**, and brings in no beans that construct anything
else. -/
theorem constructive_fresh (t : Template) (hsolid : t.IsSolid) (ht : t.Constructs) {s : Store}
    (hs : s.Constructive) : (t.fresh s).1.IsSolid ∧ (t.fresh s).2.Constructive :=
  ⟨isSolid_build t none hsolid { store := s }, constructs_build t none ht { store := s } hs⟩

end Template

end PathQuery
