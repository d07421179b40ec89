import PathQuery.Proofs.Filling

/-!
# Graphs without dangling handles

A graph is closed if the objects that it holds are there. Templates are built and slots are filled
without harm to that.

* names: `Store.Holds`, `Store.Knows`, `Store.NoDangling`; `Draft.NoDangling`, `Draft.Closes`.
* One lemma for each edit of a store says what is held after it.
* **`Template.closes_fresh`**: a fresh copy of a template leaves a closed graph closed.
-/

namespace PathQuery

/-- A place that is written holds what it held, or what is written. -/
theorem Pool.get_set_cases {α : Type} [Inhabited α] (p : Pool α) (i j : Nat) (a : α) :
    (p.set i a).get j = p.get j ∨ (p.set i a).get j = a := by
  by_cases hj : j = i
  · subst hj
    by_cases hlt : j < p.size
    · exact .inr (get_set_self hlt a)
    · exact .inl (by rw [set_of_not_lt hlt])
  · exact .inl (get_set_of_ne hj p a)

/-- A place that is there after one is added is the new one or was there before. -/
theorem Pool.get_add_cases {α : Type} [Inhabited α] (p : Pool α) (i : Nat) (a : α) :
    (p.add a).2.get i = p.get i ∨ (p.add a).2.get i = a := by
  by_cases hlt : i < p.size
  · exact .inl (get_add_of_lt hlt a)
  · by_cases hi : i = p.size
    · exact .inr (hi ▸ get_add_self p a)
    · have hno : ¬ i < (p.add a).2.size := by
        rw [size_add]
        omega
      exact .inl ((get_of_not_lt hno).trans (get_of_not_lt hlt).symm)

namespace Store

variable {s t : Store} {v w : Value} {h : Holder} {name : String} {items : List Value}
variable {id l c i n : Nat}

/-- Something in the store holds the value. -/
def Holds (s : Store) (v : Value) : Prop := ∃ e : Entry, e.value? s = some v

/-- If the value is an object, it is one of the store. -/
def Knows (s : Store) (v : Value) : Prop := ∀ o, v.place? = some o → s.Has o

/-- No handle dangles: every object that something holds is in the store. -/
def NoDangling (s : Store) : Prop := ∀ v, s.Holds v → s.Knows v

theorem knows_of_place? {o : Place} (hv : v.place? = some o) (ho : s.Has o) : s.Knows v :=
  fun _ ho' => Option.some.inj (hv.symm.trans ho') ▸ ho

theorem knows_of_no_place (hv : v.place? = none) : s.Knows v := fun o ho => by
  rw [hv] at ho
  cases ho

theorem Knows.holder (hh : s.Knows h.value) : s.Has h.place := hh _ (by cases h <;> rfl)

theorem knows_null (s : Store) : s.Knows .null := knows_of_no_place rfl

theorem lt_size_added {α : Type} (p : Pool α) (a : α) : p.size < (p.add a).2.size :=
  Nat.lt_of_lt_of_eq (Nat.lt_succ_self _) (Pool.size_add ..).symm

theorem knows_addList (s : Store) (items : List Value) :
    (s.addList items).2.Knows (.list (s.addList items).1) :=
  knows_of_place? rfl (lt_size_added s.lists items)

theorem knows_addMap (s : Store) (entries : Table Value) :
    (s.addMap entries).2.Knows (.map (s.addMap entries).1) :=
  knows_of_place? rfl (lt_size_added s.maps entries)

theorem knows_addBean (s : Store) (bean : Bean) :
    (s.addBean bean).2.Knows (.bean (s.addBean bean).1) :=
  knows_of_place? rfl (lt_size_added s.beans bean)

theorem knows_addCell (s : Store) (v : Value) :
    (s.addCell v).2.Knows (.cell (s.addCell v).1) :=
  knows_of_place? rfl (lt_size_added s.cells v)

theorem Knows.of_has (hv : s.Knows v) (hst : ∀ o, s.Has o → t.Has o) : t.Knows v := fun h heq =>
  hst _ (hv h heq)

/-! ## Closed graphs -/

/-- Nothing holds anything in a store without objects. -/
theorem noDangling_empty : ({} : Store).NoDangling := by
  rintro v ⟨e, he⟩
  rcases e with _ | ⟨_ | _, _⟩ | c | _
  case content => exact Option.some.inj he ▸ knows_null _
  all_goals cases he

namespace NoDangling

variable (hs : s.NoDangling)
include hs

/-- A graph stays closed if each of its objects has what it had, or what is there. -/
theorem of_edits (hst : ∀ o, s.Has o → t.Has o)
    (hlists : ∀ l, t.lists.get l = s.lists.get l ∨ ∀ v ∈ t.lists.get l, t.Knows v)
    (hslots : ∀ h, t.slots h = s.slots h ∨
      ∀ name v, (t.slots h).get? name = some v → t.Knows v)
    (hcells : ∀ c, t.cells.get c = s.cells.get c ∨ t.Knows (t.cells.get c))
    (hscopes : t.scopes = s.scopes) : t.NoDangling := by
  have hheld {v : Value} (hv : s.Holds v) : t.Knows v := (hs v hv).of_has hst
  rintro v ⟨e, he⟩
  cases e with
  | item l i =>
    rcases hlists l with hsame | hknown
    · exact hheld ⟨.item l i, (congrArg (·[i]?) hsame).symm.trans he⟩
    · exact hknown v (List.mem_of_getElem? he)
  | slot h name =>
    rcases hslots h with hsame | hknown
    · exact hheld ⟨.slot h name, (congrArg (·.get? name) hsame).symm.trans he⟩
    · exact hknown name v he
  | content c =>
    obtain rfl := Option.some.inj he
    rcases hcells c with hsame | hknown
    · exact hheld ⟨.content c, congrArg some hsame.symm⟩
    · exact hknown
  | binding k name => exact hheld ⟨.binding k name, by rwa [Entry.value?, ← hscopes]⟩

/-! ### Edits -/

theorem setList (hitems : ∀ v ∈ items, s.Knows v) : (s.setList l items).NoDangling := by
  have hst (o : Place) (ho : s.Has o) : (s.setList l items).Has o := by
    cases o <;> simpa [Has, Store.setList] using ho
  refine hs.of_edits hst (fun k => ?_) (fun h => .inl (by cases h <;> rfl)) (fun _ => .inl rfl) rfl
  exact (s.lists.get_set_cases l k items).imp_right fun hk v hv => by
    rw [show (s.setList l items).lists.get k = items from hk] at hv
    exact (hitems v hv).of_has hst

theorem setCell (hw : s.Knows w) : (s.setCell c w).NoDangling := by
  have hst (o : Place) (ho : s.Has o) : (s.setCell c w).Has o := by
    cases o <;> simpa [Has, Store.setCell] using ho
  refine hs.of_edits hst (fun _ => .inl rfl) (fun h => .inl (by cases h <;> rfl)) (fun k => ?_) rfl
  exact (s.cells.get_set_cases c k w).imp_right fun hk => by
    rw [show (s.setCell c w).cells.get k = w from hk]
    exact hw.of_has hst

theorem setMap {entries : Table Value} (h : ∀ name v, entries.get? name = some v → s.Knows v) :
    (s.setMap id entries).NoDangling := by
  have hst (o : Place) (ho : s.Has o) : (s.setMap id entries).Has o := by
    cases o <;> simpa [Has, Store.setMap] using ho
  refine hs.of_edits hst (fun _ => .inl rfl) (fun holder => ?_) (fun _ => .inl rfl) rfl
  cases holder with
  | bean k => exact .inl rfl
  | map k =>
    exact (s.maps.get_set_cases id k entries).imp_right fun hk name v hv => by
      rw [show (s.setMap id entries).slots (.map k) = entries from hk] at hv
      exact (h name v hv).of_has hst

theorem setBean {bean : Bean} (h : ∀ name v, bean.properties.get? name = some v → s.Knows v) :
    (s.setBean id bean).NoDangling := by
  have hst (o : Place) (ho : s.Has o) : (s.setBean id bean).Has o := by
    cases o <;> simpa [Has, Store.setBean] using ho
  refine hs.of_edits hst (fun _ => .inl rfl) (fun holder => ?_) (fun _ => .inl rfl) rfl
  cases holder with
  | map k => exact .inl rfl
  | bean k =>
    refine (s.beans.get_set_cases id k bean).imp (congrArg Bean.properties) fun hk name v hv => ?_
    have hget : ((s.setBean id bean).beans.get k).properties.get? name = some v := hv
    rw [show (s.setBean id bean).beans.get k = bean from hk] at hget
    exact (h name v hget).of_has hst

theorem addList : (s.addList []).2.NoDangling := by
  refine hs.of_edits (fun o ho => (s.unchanged_addList [] o ho).1) (fun k => ?_)
    (fun h => .inl (by cases h <;> rfl)) (fun _ => .inl rfl) rfl
  exact (s.lists.get_add_cases k []).imp_right fun hk v hv => by
    rw [show (s.addList []).2.lists.get k = [] from hk] at hv
    cases hv

theorem addMap : (s.addMap .empty).2.NoDangling :=
  hs.of_edits (fun o ho => (s.unchanged_addMap .empty o ho).1) (fun _ => .inl rfl)
    (fun h => .inl (s.slots_addMap_empty h)) (fun _ => .inl rfl) rfl

theorem addBean (type : String) : (s.addBean { type }).2.NoDangling := by
  refine hs.of_edits (fun o ho => (s.unchanged_addBean { type } o ho).1) (fun _ => .inl rfl)
    (fun holder => ?_) (fun _ => .inl rfl) rfl
  cases holder with
  | map k => exact .inl rfl
  | bean k =>
    refine (s.beans.get_add_cases k { type }).imp (congrArg Bean.properties) fun hk name v hv => ?_
    have hget : ((s.addBean { type }).2.beans.get k).properties.get? name = some v := hv
    rw [show (s.addBean { type }).2.beans.get k = { type } from hk] at hget
    cases hget

theorem addCell : (s.addCell .null).2.NoDangling := by
  refine hs.of_edits (fun o ho => (s.unchanged_addCell .null o ho).1) (fun _ => .inl rfl)
    (fun h => .inl (by cases h <;> rfl)) (fun k => ?_) rfl
  exact (s.cells.get_add_cases k .null).imp_right fun hk => by
    rw [show (s.addCell .null).2.cells.get k = .null from hk]
    exact knows_null _

theorem addForeign (foreign : Foreign) : (s.addForeign foreign).2.NoDangling :=
  hs.of_edits (fun o ho => (s.unchanged_addForeign foreign o ho).1) (fun _ => .inl rfl)
    (fun h => .inl (by cases h <;> rfl)) (fun _ => .inl rfl) rfl

/-! ### What is there -/

/-- What is in a slot is there. -/
theorem knows_slot (h : Holder) (name : String) : s.Knows (s.slot h name) := by
  rw [slot]
  cases hget : (s.slots h).get? name with
  | none => exact s.knows_null
  | some v => exact hs v ⟨.slot h name, hget⟩

theorem knows_item (l i : Nat) : s.Knows ((s.lists.get l).getD i .null) := by
  rw [List.getD_eq_getElem?_getD]
  cases hget : (s.lists.get l)[i]? with
  | none => exact s.knows_null
  | some v => exact hs v ⟨.item l i, hget⟩

theorem knows_of_mem (hv : v ∈ s.lists.get l) : s.Knows v := by
  obtain ⟨i, hi⟩ := List.mem_iff_getElem?.1 hv
  exact hs v ⟨.item l i, hi⟩

/-- A table stays among what is there when something is put into it that is there. -/
theorem knows_insert (hw : s.Knows w) {name key : String}
    (hv : ((s.slots h).insert name w).get? key = some v) : s.Knows v := by
  rcases Table.get?_insert hv with ⟨-, rfl⟩ | hv
  · exact hw
  · exact hs v ⟨.slot h key, hv⟩

theorem putSlot (hw : s.Knows w) (hput : s.putSlot h name w = .ok t) : t.NoDangling := by
  unfold Store.putSlot at hput
  split at hput
  · cases hput
    exact hs.setCell hw
  · next id _ =>
    cases hput
    exact hs.setMap fun key v => hs.knows_insert (h := .map id) hw
  · next id _ =>
    dsimp only at hput
    split at hput
    · next hassign =>
      cases hput
      obtain ⟨-, rfl⟩ := Bean.assign_eq_ok hassign
      exact hs.setBean fun key v => hs.knows_insert (h := .bean id) hw
    · cases hput

theorem padList : (s.padList l n).NoDangling := by
  refine hs.setList fun v hv => ?_
  rcases List.mem_append.1 hv with hv | hv
  · exact hs.knows_of_mem hv
  · rw [List.eq_of_mem_replicate hv]
    exact s.knows_null

theorem putListItem (hw : s.Knows w) : (s.putListItem l i w).NoDangling := by
  refine hs.setList fun v hv => ?_
  rcases List.mem_or_eq_of_mem_set hv with hv | rfl
  · rcases List.mem_append.1 hv with hv | hv
    · exact hs.knows_of_mem hv
    · rw [List.eq_of_mem_replicate hv]
      exact s.knows_null
  · exact hw

end NoDangling

end Store

/-! ## Drafts -/

namespace Draft

open PathQuery.Store

variable {α β : Type} {d d' : Draft}

/-- No handle dangles in the store, nor among what the labels stand for. -/
structure NoDangling (d : Draft) : Prop where
  store : d.store.NoDangling
  labels : ∀ label v, d.labels.lookup label = some v → d.store.Knows v

/-- The action comes to a closed draft that still has everything, and in which the values of its
result are there. -/
def ClosesAt (values : α → List Value) (m : StateM Draft α) (d : Draft) : Prop :=
  (m.run d).2.NoDangling ∧ (∀ o, d.store.Has o → (m.run d).2.store.Has o) ∧
    ∀ v ∈ values (m.run d).1, (m.run d).2.store.Knows v

/-- The action does so from every closed draft. -/
def Closes (values : α → List Value) (m : StateM Draft α) : Prop :=
  ∀ d : Draft, d.NoDangling → ClosesAt values m d

variable {values : α → List Value} {results : β → List Value} {m : StateM Draft α}
variable {f : α → StateM Draft β}

theorem ClosesAt.bind (hm : ClosesAt values m d)
    (hf : ∀ a d', d'.NoDangling → (∀ o, d.store.Has o → d'.store.Has o) →
      (∀ v ∈ values a, d'.store.Knows v) → ClosesAt results (f a) d') :
    ClosesAt results (m >>= f) d := by
  obtain ⟨hclosed, hhas, hknows⟩ := hm
  obtain ⟨hclosed', hhas', hknows'⟩ := hf (m.run d).1 (m.run d).2 hclosed hhas hknows
  exact ⟨hclosed', fun o ho => hhas' o (hhas o ho), hknows'⟩

theorem closesAt_pure {a : α} (hd : d.NoDangling) (ha : ∀ v ∈ values a, d.store.Knows v) :
    ClosesAt values (pure a) d := ⟨hd, fun _ ho => ho, ha⟩

theorem NoDangling.of_store {s : Store} (hd : d.NoDangling) (hs : s.NoDangling)
    (hhas : ∀ o, d.store.Has o → s.Has o) : NoDangling { d with store := s } :=
  ⟨hs, fun label v hv => (hd.labels label v hv).of_has hhas⟩

/-- A label is bound to what is there. -/
theorem closesAt_bind {v : Value} (label : Option String) (hd : d.NoDangling)
    (hv : d.store.Knows v) : ClosesAt (fun _ => []) (bind label v) d := by
  cases label with
  | none => exact closesAt_pure hd fun _ h => nomatch h
  | some label =>
    refine ⟨⟨hd.store, fun key w hw => ?_⟩, fun _ ho => ho, fun _ h => nomatch h⟩
    have hlookup : ((label, v) :: d.labels).lookup key = some w := hw
    rw [List.lookup_cons] at hlookup
    split at hlookup
    · exact Option.some.inj hlookup ▸ hv
    · exact hd.labels key w hlookup

/-- A value that is there is bound to a label and given. -/
theorem closes_bound {v : Value} (label : Option String) (hv : ∀ s : Store, s.Knows v) :
    Closes (fun w => [w]) (do bind label v; pure v) := fun d hd =>
  (closesAt_bind label hd (hv d.store)).bind fun _ d' hd' _ _ =>
    closesAt_pure hd' (List.forall_mem_singleton.2 (hv d'.store))

theorem closes_addForeign (foreign : Foreign) :
    Closes (fun _ => []) (add (·.addForeign foreign)) := fun d hd =>
  have hhas (o : Place) (ho : d.store.Has o) := (d.store.unchanged_addForeign foreign o ho).1
  ⟨hd.of_store (hd.store.addForeign foreign) hhas, hhas, fun _ h => nomatch h⟩

/-- An object is added, and filled when its contents are there. -/
theorem closes_filled {g : Store → Nat × Store} {value : Nat → Value}
    {fill : Nat → α → Store → Store} (label : Option String)
    (hadd : ∀ s : Store, s.NoDangling → (g s).2.NoDangling)
    (hgrow : ∀ s : Store, s.Unchanged (g s).2)
    (hvalue : ∀ s : Store, (g s).2.Knows (value (g s).1)) (hm : Closes values m)
    (hfill : ∀ id a (s : Store), s.NoDangling → (∀ v ∈ values a, s.Knows v) →
      (fill id a s).NoDangling ∧ ∀ o, s.Has o → (fill id a s).Has o) :
    Closes (fun v => [v]) (do
      let id ← add g
      bind label (value id)
      let a ← m
      edit (fill id a)
      pure (value id)) := by
  intro d hd
  have hhas (o : Place) (ho : d.store.Has o) : (g d.store).2.Has o := (hgrow d.store o ho).1
  have hnew : NoDangling { d with store := (g d.store).2 } :=
    hd.of_store (hadd d.store hd.store) hhas
  have hrest : ClosesAt (fun v => [v]) (do
      bind label (value (g d.store).1)
      let a ← m
      edit (fill (g d.store).1 a)
      pure (value (g d.store).1)) { d with store := (g d.store).2 } := by
    refine (closesAt_bind label hnew (hvalue d.store)).bind fun _ d₁ hd₁ hhas₁ _ => ?_
    refine (hm d₁ hd₁).bind fun a d₂ hd₂ hhas₂ ha => ?_
    obtain ⟨hfilled, hhas₃⟩ := hfill (g d.store).1 a d₂.store hd₂.store ha
    exact ⟨hd₂.of_store hfilled hhas₃, hhas₃, List.forall_mem_singleton.2
      ((hvalue d.store).of_has fun o ho => hhas₃ o (hhas₂ o (hhas₁ o ho)))⟩
  obtain ⟨hclosed, hgrown, hknows⟩ := hrest
  exact ⟨hclosed, fun o ho => hgrown o (hhas o ho), hknows⟩

end Draft

open Draft Store

mutual

theorem Markup.closes_build (m : Markup) : Closes (fun _ => []) m.build := by
  cases m with
  | element name bindings defaultUri attributes text children =>
    rw [Markup.build]
    intro d hd
    refine (Markup.closes_buildAll children d hd).bind fun ids d' hd' _ _ => ?_
    exact closes_addForeign _ d' hd'

theorem Markup.closes_buildAll (ms : List Markup) : Closes (fun _ => []) (Markup.buildAll ms) := by
  cases ms with
  | nil =>
    rw [Markup.buildAll]
    exact fun d hd => closesAt_pure hd fun _ h => nomatch h
  | cons m ms =>
    rw [Markup.buildAll]
    intro d hd
    refine (Markup.closes_build m d hd).bind fun id d' hd' _ _ => ?_
    refine (Markup.closes_buildAll ms d' hd').bind fun ids d'' hd'' _ _ => ?_
    exact closesAt_pure hd'' fun _ h => nomatch h

end

/-- The values of a table were in the list that it was made from. -/
theorem Table.mem_of_get?_ofList {α : Type} {l : List (String × α)} {name : String} {v : α}
    (h : (ofList l).get? name = some v) : v ∈ l.map Prod.snd := by
  have hfold (t : Table α) : (l.foldl (fun t (k, v) => t.insert k v) t).get? name = some v →
      t.get? name = some v ∨ v ∈ l.map Prod.snd := by
    clear h
    induction l generalizing t with
    | nil => exact .inl
    | cons e l ih =>
      intro h
      rcases ih _ h with h | h
      · exact (get?_insert h).symm.imp_right fun h => List.mem_cons.2 (.inl h.2)
      · exact .inr (List.mem_cons_of_mem _ h)
  exact (hfold .empty h).resolve_left nofun

/-- Declared properties start as null. -/
theorem Table.get?_declared {nested : List (String × Template)} {t : Table Value} {name : String}
    {v : Value} (h : (nested.foldl (fun t (p, _) => if t.has p then t else t.insert p .null) t).get?
      name = some v) : t.get? name = some v ∨ v = .null := by
  induction nested generalizing t with
  | nil => exact .inl h
  | cons e nested ih =>
    rcases ih h with h | h
    · dsimp only at h
      split at h
      · exact .inl h
      · exact (get?_insert h).symm.imp_right And.right
    · exact .inr h

namespace Template

mutual

/-- **Building a template leaves a closed graph closed**, and its value is there. -/
theorem closes_build (t : Template) (label : Option String) :
    Closes (fun v => [v]) (t.build label) := by
  cases t with
  | null | bool | number | text =>
    rw [build]
    exact closes_bound label fun s => knows_of_no_place rfl
  | list items =>
    rw [build]
    refine closes_filled label (fun s hs => hs.addList) (fun s => s.unchanged_addList [])
      (fun s => s.knows_addList []) (closes_buildAll items) fun l vs s hs hvs =>
        ⟨hs.setList hvs, fun o ho => ?_⟩
    cases o <;> simpa [Has, setList] using ho
  | map entries =>
    rw [build]
    refine closes_filled label (fun s hs => hs.addMap) (fun s => s.unchanged_addMap .empty)
      (fun s => s.knows_addMap .empty) (closes_buildFields entries) fun id fields s hs hfields =>
        ⟨hs.setMap fun name v hv => hfields v (Table.mem_of_get?_ofList hv), fun o ho => ?_⟩
    cases o <;> simpa [Has, setMap] using ho
  | cell content =>
    rw [build]
    refine closes_filled label (fun s hs => hs.addCell) (fun s => s.unchanged_addCell .null)
      (fun s => s.knows_addCell .null) (closes_build content none) fun c v s hs hv =>
        ⟨hs.setCell (List.forall_mem_singleton.1 hv), fun o ho => ?_⟩
    cases o <;> simpa [Has, setCell] using ho
  | bean type properties nested readOnly typed =>
    rw [build]
    refine closes_filled label (fun s hs => hs.addBean type)
      (fun s => s.unchanged_addBean { type }) (fun s => s.knows_addBean { type })
      (closes_buildFields properties) fun id fields s hs hfields =>
        ⟨hs.setBean fun name v hv => ?_, fun o ho => ?_⟩
    · rcases Table.get?_declared hv with hv | rfl
      · exact hfields v (Table.mem_of_get?_ofList hv)
      · exact s.knows_null
    · cases o <;> simpa [Has, setBean] using ho
  | foreign kind =>
    rw [build]
    exact fun d hd => (closes_addForeign _ d hd).bind fun id d' hd' _ _ =>
      closes_bound label (fun s => knows_of_no_place rfl) d' hd'
  | markup tree =>
    rw [build]
    exact fun d hd => (Markup.closes_build tree d hd).bind fun id d' hd' _ _ =>
      closes_bound label (fun s => knows_of_no_place rfl) d' hd'
  | ref name =>
    rw [build]
    intro d hd
    have hv : d.store.Knows ((d.labels.lookup name).getD .null) := by
      cases hlookup : d.labels.lookup name with
      | none => exact d.store.knows_null
      | some v => exact hd.labels name v hlookup
    obtain ⟨hclosed, hhas, -⟩ := closesAt_bind label hd hv
    exact ⟨hclosed, hhas, List.forall_mem_singleton.2 (hv.of_has hhas)⟩
  | labelled name t =>
    rw [build]
    exact closes_build t (some name)

theorem closes_buildAll (ts : List Template) : Closes id (buildAll ts) := by
  cases ts with
  | nil =>
    rw [buildAll]
    exact fun d hd => closesAt_pure hd fun _ h => nomatch h
  | cons t ts =>
    rw [buildAll]
    intro d hd
    refine (closes_build t none d hd).bind fun v d' hd' _ hv => ?_
    refine (closes_buildAll ts d' hd').bind fun vs d'' hd'' hhas hvs => ?_
    exact closesAt_pure hd'' (List.forall_mem_cons.2
      ⟨(List.forall_mem_singleton.1 hv).of_has hhas, hvs⟩)

theorem closes_buildFields (ts : List (String × Template)) :
    Closes (List.map Prod.snd) (buildFields ts) := by
  cases ts with
  | nil =>
    rw [buildFields]
    exact fun d hd => closesAt_pure hd fun _ h => nomatch h
  | cons field ts =>
    obtain ⟨name, t⟩ := field
    rw [buildFields]
    intro d hd
    refine (closes_build t none d hd).bind fun v d' hd' _ hv => ?_
    refine (closes_buildFields ts d' hd').bind fun vs d'' hd'' hhas hvs => ?_
    exact closesAt_pure hd'' (List.forall_mem_cons.2
      ⟨(List.forall_mem_singleton.1 hv).of_has hhas, hvs⟩)

end

/-- **A fresh copy of a template leaves a closed graph closed**, and its value is there. -/
theorem closes_fresh (t : Template) {s : Store} (hs : s.NoDangling) :
    (t.fresh s).2.NoDangling ∧ (t.fresh s).2.Knows (t.fresh s).1 := by
  have hd : Draft.NoDangling { store := s } := ⟨hs, fun _ _ h => nomatch h⟩
  obtain ⟨hclosed, -, hv⟩ := closes_build t none _ hd
  exact ⟨hclosed.store, List.forall_mem_singleton.1 hv⟩

end Template

end PathQuery
