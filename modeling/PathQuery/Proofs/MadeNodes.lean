import PathQuery.Proofs.Constructors
import PathQuery.Proofs.FilledPaths

/-!
# Nodes that have been made

Where a node has been made there is something, and to make it again changes nothing.

* names: `Store.IsMade`, `Node.IsMade`.
* **`createSlot_makes`**, `createListItem_makes`: what was created is made, if beans construct solid
  values only. **`createSlot_of_made`**, `createListItem_of_made`: what is made is left as it is.
* `createAt_makes`, `createAt_of_made`: the same of every node that was found.
-/

namespace PathQuery

namespace Store

variable {s t : Store} {v w : Value} {h : Holder} {name : String} {index : Index} {l i k n : Nat}

/-! ## Values with something at an index -/

/-- There is something in the whole of a value, at a place of the list in it, or in a value that is
its own only element. -/
inductive IsMade (s : Store) (v : Value) : Index → Prop
  | whole (hv : s.unwrap v ≠ .null) : IsMade s v .whole
  | item {i : Int} {k l : Nat} (hk : (Index.element i).place? = some k)
      (hl : s.unwrap v = .list l) (hitem : (s.lists.get l).getD k .null ≠ .null) :
      IsMade s v (.element i)
  | sole (hl : ∀ l, s.unwrap v ≠ .list l) (hv : s.unwrap v ≠ .null) : IsMade s v (.element 0)

theorem lt_length_of_getD_ne_null {items : List Value} (hitem : items.getD k .null ≠ .null) :
    k < items.length := by
  by_contra hno
  rw [List.getD_eq_getElem?_getD, List.getElem?_eq_none (Nat.le_of_not_lt hno)] at hitem
  exact hitem rfl

namespace IsMade

theorem unwrap_ne_null (hv : s.IsMade v index) : s.unwrap v ≠ .null := by
  cases hv with
  | whole hv => exact hv
  | item _ hl _ =>
    rw [hl]
    nofun
  | sole _ hv => exact hv

theorem ne_null (hv : s.IsMade v index) : v ≠ .null := by
  rintro rfl
  exact hv.unwrap_ne_null rfl

theorem has (hv : s.IsMade (s.slot h name) index) : (s.slots h).has name = true := by
  by_contra hno
  rw [Table.has_iff, ← Table.get?_eq_none_iff] at hno
  exact hv.ne_null (by rw [slot, hno]; rfl)

theorem congr (hst : s.SameGraph t) (hv : s.IsMade v index) : t.IsMade v index := by
  have hunwrap : t.unwrap v = s.unwrap v := unwrapUpTo_congr hst.cells _ v
  cases hv with
  | whole hv => exact .whole (hunwrap ▸ hv)
  | item hk hl hitem => exact .item hk (hunwrap.trans hl) (hst.lists ▸ hitem)
  | sole hl hv => exact .sole (hunwrap ▸ hl) (hunwrap ▸ hv)

/-- Where something is shown there is something. -/
theorem of_end (hw : s.endUpTo? (maxIndirections - 1) (s.select v index) = some w)
    (hnull : w ≠ .null) : s.IsMade v index := by
  have hunwrap {v : Value} (hv : s.endUpTo? (maxIndirections - 1) v = some w) :
      s.unwrap v ≠ .null := by
    rw [show s.unwrap v = w from unwrapUpTo_of_endUpTo? (by decide) hv]
    exact hnull
  obtain ⟨x, hselects, hx⟩ := exists_selects_of_end hw hnull
  cases hselects with
  | whole => exact .whole (hunwrap hx)
  | item hk hl hitem =>
    refine .item hk hl fun hitemNull => ?_
    rw [List.getD_eq_getElem?_getD, hitem] at hitemNull
    obtain rfl : x = .null := hitemNull
    exact hnull (Option.some.inj hx).symm
  | sole hlist => exact .sole hlist (hunwrap hx)

theorem isActual {key : QName} {a : Bool} (hv : s.IsMade (s.slot h key.text) index) :
    (Node.slot h key index a).isActual s = true := by
  have hlength : (Node.slot h key index a).length s = (s.counted (s.slot h key.text)).length :=
    length_slot h key index a
  have hrange {i : Int} (h0 : 0 ≤ i) (hi : i < (s.counted (s.slot h key.text)).length)
      (hindex : index = .element i) : (Node.slot h key index a).isActual s = true := by
    subst hindex
    simp [Node.isActual, Node.inRange, Node.index, hlength, h0, hi]
  cases hv with
  | whole => rfl
  | @item i k l hk hl hitem =>
    obtain ⟨h0, rfl⟩ := Index.place?_element hk
    refine hrange h0 ?_ rfl
    have hlt := lt_length_of_getD_ne_null hitem
    rw [counted, hl]
    dsimp only
    omega
  | sole hl hnull =>
    refine hrange (Int.le_refl 0) ?_ rfl
    rw [counted]
    split
    · next l hlist => exact absurd hlist (hl l)
    · next hno => exact absurd hno hnull
    · exact Int.zero_lt_one

end IsMade

/-! ## What a write to a slot leaves -/

theorem NoDangling.knows_unwrapUpTo (hs : s.NoDangling) (hv : s.Knows v) :
    s.Knows (s.unwrapUpTo n v) := by
  induction n generalizing v with
  | zero => exact hv
  | succ n ih =>
    cases v with
    | cell c => exact ih (hs _ ⟨.content c, rfl⟩)
    | _ => exact hv

/-- The list in a slot is in the store. -/
theorem NoDangling.has_list (hs : s.NoDangling) (hl : s.unwrap (s.slot h name) = .list l) :
    s.Has (.list l) := by
  have hknows : s.Knows (s.unwrap (s.slot h name)) := hs.knows_unwrapUpTo (hs.knows_slot h name)
  rw [hl] at hknows
  exact hknows _ rfl

/-- Something is written to the slot or to the cell in it. -/
theorem NoDangling.unwrap_of_putSlot (hs : s.NoDangling) (hh : s.Has h.place)
    (hv : ∀ c, v ≠ .cell c)
    (hput : s.putSlot h name v = .ok t) : t.unwrap (t.slot h name) = v := by
  obtain ⟨hentry, hholds, -⟩ := slotHolds_of_putSlot hput hv
  have hhas : s.Has (s.slotEntry h name).place := by
    rw [slotEntry]
    split
    · next c hc => exact hs.knows_slot h name _ (by rw [hc]; rfl)
    · rwa [Entry.place_slot]
  refine (hholds ?_).unwrap hv
  rw [hentry]
  exact (changedTo_putSlot hput).has _ hhas

/-- A list in a slot stays there when something is filled. -/
theorem FilledTo.unwrap_slot (hst : s.FilledTo t) (hl : s.unwrap (s.slot h name) = .list l) :
    t.unwrap (t.slot h name) = .list l := by
  have hblank := not_isBlank_of_list hl
  have hheld : s.slot h name ≠ .null := fun hnull => hblank ⟨0, hnull⟩
  have hsame : t.slot h name = s.slot h name :=
    slot_eq (hst.kept (.slot h name) _ (value?_slot rfl hheld) hblank)
  rw [hsame, ← hl]
  exact unwrapUpTo_of_kept (fun c => hst.kept (.content c)) hblank _

theorem getD_putListItem (hl : s.Has (.list l)) (k : Nat) (w : Value) :
    ((s.putListItem l k w).lists.get l).getD k .null = w := by
  have hitems : (s.putListItem l k w).lists.get l = putItem (s.lists.get l) k w :=
    Pool.get_set_self hl _
  rw [hitems, List.getD_eq_getElem?_getD, getElem?_putItem]
  rfl

end Store

namespace Pointer

open PathQuery.Action

variable {factory : Option ObjectFactory} {p q : Pointer} {h : Holder} {name : QName}
variable {index : Index} {s t : Store}

/-! ## Slots -/

/-- **To make a slot again changes nothing.** -/
theorem createSlot_of_made (h : Holder) (hmade : s.IsMade (s.slot h name.text) p.node.index) :
    (p.createSlot factory h name).result s = (.ok (), s) := by
  have hnull := Value.isNull_eq_false hmade.unwrap_ne_null
  have hfill : (p.fillSlot factory h name).result s = (.ok (), s) := by
    rw [fillSlot, result_bind_ok (result_get s), hnull]
    rfl
  rw [createSlot]
  generalize hindex : p.node.index = index at hmade
  cases hmade with
  | whole =>
    rw [result_bind_ok (result_place_whole "property" hindex)]
    exact hfill
  | @item i k l hk hl hitem =>
    rw [result_bind_ok (result_place_element "property" hindex hk), result_bind_ok (result_get s),
      hl]
    dsimp only
    rw [createSlot.createItem, result_bind_ok (result_change ..),
      Store.padList_of_le (Store.lt_length_of_getD_ne_null hitem),
      result_bind_ok (result_get s), Value.isNull_eq_false hitem]
    rfl
  | sole hl =>
    rw [result_bind_ok (result_place_element "property" hindex rfl), result_bind_ok (result_get s)]
    dsimp only
    split
    · next l hlist => exact absurd hlist (hl l)
    · exact hfill

/-- Without a factory, new objects are no lists and not in cells. -/
theorem newObject_solid (p : Pointer) (h : Holder) (name : QName) (hmakers : s.Constructive) :
    ∃ v t, (p.newObject none h name).result s = (.ok v, t) ∧ v.IsSolid ∧ t.Constructive := by
  have hmap : ∃ v t, (do pure (.map (← make (·.addMap .empty))) : Action Value).result s =
      (.ok v, t) ∧ v.IsSolid ∧ t.Constructive :=
    ⟨_, _, rfl, (Holder.map _).isSolid_value, hmakers.of_makers fun _ => rfl⟩
  unfold newObject
  dsimp only
  rw [result_bind_ok (result_pure none s)]
  cases h with
  | map id => exact hmap
  | bean id =>
    dsimp only
    rw [result_bind_ok (result_get s)]
    split
    · next template htemplate =>
      obtain ⟨hsolid, hconstructs⟩ := hmakers id name.text template htemplate
      exact ⟨_, _, rfl, template.constructive_fresh hsolid hconstructs hmakers⟩
    · exact hmap

/-- The objects that are made construct solid values as well. -/
theorem createSlot_constructive (p : Pointer) (h : Holder) (name : QName)
    (hmakers : s.Constructive) :
    ((p.createSlot none h name).result s).2.Constructive := by
  let R (s t : Store) : Prop := s.Constructive → t.Constructive
  have : IsPreorder Store R :=
    { refl := fun _ hs => hs
      trans := fun _ _ _ hst htu hs => htu (hst hs) }
  have hput {t : Store} {v : Value} (ht : t.Constructive) :
      ((putSlot h name.text v).result t).2.Constructive := by
    rw [result_putSlot]
    cases hput : t.putSlot h name.text v with
    | error e => exact ht
    | ok u => exact ht.putSlot hput
  have hkeeps : (p.createSlot none h name).Keeps R := by
    refine createSlot_keeps (fun s _ hs => ?_) (fun s l n hs => hs.of_makers fun _ => rfl)
      (fun s l i _ hs => ?_) fun s _ hs => hput (hs.of_makers fun _ => rfl)
    · obtain ⟨v, t, hmade, -, ht⟩ := newObject_solid p h name hs
      rw [result_bind_ok hmade]
      exact hput ht
    · obtain ⟨v, t, hmade, -, ht⟩ := newObject_solid p h name hs
      rw [result_bind_ok hmade, result_change]
      exact ht.of_makers fun _ => rfl
  exact hkeeps s hmakers

/-- A slot that is filled has something in it, and no list if there was none. -/
theorem fillSlot_makes (hs : s.NoDangling) (hmakers : s.Constructive) (hh : s.Has h.place)
    (hresult : (p.fillSlot none h name).result s = (.ok (), t)) :
    t.unwrap (t.slot h name.text) ≠ .null ∧
      ((∀ l, s.unwrap (s.slot h name.text) ≠ .list l) →
        ∀ l, t.unwrap (t.slot h name.text) ≠ .list l) := by
  rw [fillSlot, result_bind_ok (result_get s)] at hresult
  split at hresult
  · obtain ⟨v, u, hmade, hsolid, -⟩ := newObject_solid p h name hmakers
    obtain ⟨v', u', hmade', hsu, hu, -⟩ := newObject_supplies supplies_none p h name hs
    rw [hmade, Prod.mk.injEq, Except.ok.injEq] at hmade'
    obtain ⟨rfl, rfl⟩ := hmade'
    rw [result_bind_ok hmade] at hresult
    have hheld := hu.unwrap_of_putSlot (hsu _ hh).1 hsolid.ne_cell (putSlot_eq_ok hresult)
    rw [hheld]
    exact ⟨hsolid.ne_null, fun _ => hsolid.ne_list⟩
  · next hnull =>
    obtain rfl : s = t := (Prod.mk.inj hresult).2
    exact ⟨fun hheld => hnull (by rw [hheld]; rfl), id⟩

/-- The list in a slot is given an element. -/
theorem createSlot_list_makes {i : Int} {k l : Nat} (hs : s.NoDangling) (hh : s.Has h.place)
    (hmakers : s.Constructive) (hindex : p.node.index = .element i)
    (hk : (Index.element i).place? = some k) (hl : s.unwrap (s.slot h name.text) = .list l)
    (hresult : (p.createSlot none h name).result s = (.ok (), t)) :
    t.IsMade (t.slot h name.text) (.element i) := by
  have hgrows : s.FilledTo ((p.createSlot none h name).result s).2 ∧
      ((p.createSlot none h name).result s).2.NoDangling := createSlot_grows supplies_none hh hs
  rw [hresult] at hgrows
  have hlist : t.unwrap (t.slot h name.text) = .list l := hgrows.1.unwrap_slot hl
  refine .item hk hlist ?_
  rw [createSlot, result_bind_ok (result_place_element "property" hindex hk),
    result_bind_ok (result_get s), hl] at hresult
  dsimp only at hresult
  rw [createSlot.createItem, result_bind_ok (result_change ..), result_bind_ok (result_get _)]
    at hresult
  have hpad : (s.padList l (k + 1)).NoDangling := hs.padList
  have hpadMakers : (s.padList l (k + 1)).Constructive := hmakers.of_makers fun _ => rfl
  split at hresult
  · obtain ⟨v, u, hmade, hsolid, -⟩ := newObject_solid p h name hpadMakers
    rw [result_bind_ok hmade, result_change, Prod.mk.injEq] at hresult
    obtain ⟨-, rfl⟩ := hresult
    have hhas := hgrows.2.has_list hlist
    rw [Store.getD_putListItem (Store.has_putListItem.1 hhas)]
    exact hsolid.ne_null
  · next hnull =>
    obtain rfl : s.padList l (k + 1) = t := (Prod.mk.inj hresult).2
    exact fun hitem => hnull (by rw [hitem]; rfl)

/-- **A slot that was created is made.** -/
theorem createSlot_makes (hs : s.NoDangling) (hh : s.Has h.place) (hmakers : s.Constructive)
    (hresult : (p.createSlot none h name).result s = (.ok (), t)) :
    t.IsMade (t.slot h name.text) p.node.index := by
  have hwhole := hresult
  rw [createSlot] at hresult
  cases hindex : p.node.index with
  | whole =>
    rw [result_bind_ok (result_place_whole "property" hindex)] at hresult
    exact .whole (fillSlot_makes hs hmakers hh hresult).1
  | element i =>
    cases hk : (Index.element i).place? with
    | none =>
      rw [result_bind_error (result_place_none "property" hindex hk)] at hresult
      cases hresult
    | some k =>
      rw [result_bind_ok (result_place_element "property" hindex hk), result_bind_ok (result_get s)]
        at hresult
      dsimp only at hresult
      split at hresult
      · next l hl => exact createSlot_list_makes hs hh hmakers hindex hk hl hwhole
      · next hl =>
        split at hresult
        · next hzero =>
          obtain ⟨hi, rfl⟩ := Index.place?_element hk
          obtain rfl : i = 0 := by omega
          obtain ⟨hnull, hlist⟩ := fillSlot_makes hs hmakers hh hresult
          exact .sole (hlist hl) hnull
        · split at hresult
          · have hmake : (make (·.addList [])).result s =
                (.ok s.lists.size, (s.addList []).2) := rfl
            rw [result_bind_ok hmake] at hresult
            obtain ⟨⟨⟩, u, hu, hresult⟩ := result_bind_eq_ok_iff.1 hresult
            have hadded : (s.addList []).2.NoDangling := hs.addList
            have hput := putSlot_eq_ok hu
            have hclosed : u.NoDangling := hadded.putSlot (s.knows_addList []) hput
            have hhas : u.Has h.place := (Store.changedTo_putSlot hput).has _
              (s.unchanged_addList [] _ hh).1
            have hnew : (s.addList []).2.Constructive := hmakers.of_makers fun _ => rfl
            have hmakersU : u.Constructive := hnew.putSlot hput
            have hl' : u.unwrap (u.slot h name.text) = .list s.lists.size :=
              hadded.unwrap_of_putSlot (s.unchanged_addList [] _ hh).1 (by simp) hput
            -- What is left to do is what the making of the slot does now that the list is in it.
            refine createSlot_list_makes hclosed hhas hmakersU hindex hk hl' ?_
            rw [createSlot, result_bind_ok (result_place_element "property" hindex hk),
              result_bind_ok (result_get u), hl']
            exact hresult
          · cases hresult

/-! ## Items -/

/-- **To make an item again changes nothing.** -/
theorem createListItem_of_made {l k : Nat} (itemName : Option QName)
    (hitem : (s.lists.get l).getD k .null ≠ .null) :
    (p.createListItem factory l k itemName).result s = (.ok (), s) := by
  rw [createListItem, result_bind_ok (result_change ..),
    Store.padList_of_le (Store.lt_length_of_getD_ne_null hitem),
    result_bind_ok (result_get s), Value.isNull_eq_false hitem]
  rfl

/-- **An item that was created is made.** -/
theorem createListItem_makes {l k : Nat} {itemName : Option QName} (hl : s.Has (.list l))
    (hmakers : s.Constructive)
    (hresult : (p.createListItem none l k itemName).result s = (.ok (), t)) :
    (t.lists.get l).getD k .null ≠ .null ∧ t.Constructive := by
  rw [createListItem, result_bind_ok (result_change ..), result_bind_ok (result_get _)] at hresult
  have hpad : (s.padList l (k + 1)).Constructive := hmakers.of_makers fun _ => rfl
  split at hresult
  · have hhas : (s.padList l (k + 1)).Has (.list l) := (s.filledTo_padList l (k + 1)).has _ hl
    generalize s.padList l (k + 1) = u at hresult hpad hhas
    obtain rfl : (u.addMap .empty).2.putListItem l k (.map (u.addMap .empty).1) = t :=
      (Prod.mk.inj hresult).2
    refine ⟨?_, hpad.of_makers fun _ => rfl⟩
    rw [Store.getD_putListItem (u.unchanged_addMap .empty _ hhas).1]
    exact Value.noConfusion
  · next hnull =>
    obtain rfl : s.padList l (k + 1) = t := (Prod.mk.inj hresult).2
    exact ⟨fun hitem => hnull (by rw [hitem]; rfl), hpad⟩

end Pointer

/-! ## Nodes -/

/-- Creation leaves the node as it is. -/
def Node.IsMade (s : Store) : Node → Prop
  | .slot h name index _ => s.IsMade (s.slot h name.text) index
  | .missing .. => False
  | .var scope name _ => (s.scopes.get scope).has name.text = true
  | .items l _ (.element i) => s.IsMade (.list l) (.element i)
  | _ => True

namespace Pointer

open PathQuery.Action

variable {visit : Visit} {above : List Visit} {locale : Locale} {q : Pointer} {s t : Store}
variable {factory : Option ObjectFactory}

/-- To make a node again changes nothing. -/
theorem createAt_of_made (hmade : visit.node.IsMade s) :
    (createAt .standard factory locale visit above).result s =
      (.ok { visit, above, locale }, s) := by
  unfold createAt
  cases hnode : visit.node with
  | missing =>
    rw [hnode] at hmade
    exact absurd hmade id
  | slot h name index a =>
    rw [hnode] at hmade
    have hslot : s.IsMade (s.slot h name.text)
        (Pointer.mk visit above locale).node.index := by
      rw [show (Pointer.mk visit above locale).node = _ from hnode]
      exact hmade
    dsimp only
    rw [result_bind_ok (createSlot_of_made h hslot)]
    rfl
  | var scope name index =>
    rw [hnode] at hmade
    have hhas : (s.scopes.get scope).has name.text = true := hmade
    dsimp only
    rw [result_bind_ok (result_get s), hhas]
    rfl
  | items l name index =>
    dsimp only
    cases index with
    | whole =>
      rw [result_bind_ok (result_place_whole (p := ⟨visit, above, locale⟩) "collection"
        (congrArg Node.index hnode))]
      rfl
    | element i =>
      rw [hnode] at hmade
      cases (hmade : s.IsMade (.list l) (.element i)) with
      | item hk hl hitem =>
        cases hl
        rw [result_bind_ok (result_place_element (p := ⟨visit, above, locale⟩) "collection"
          (congrArg Node.index hnode) hk), result_bind_ok (createListItem_of_made name hitem)]
        rfl
      | sole hl => exact absurd rfl (hl l)
  | _ => rfl

/-- A node that was found is made when it is created. -/
theorem createAt_makes (hs : s.NoDangling) (hp : IsAnchored s { visit, above, locale })
    (hmakers : s.Constructive) (hfound : ∀ name index a, visit.node ≠ .missing name index a)
    (hresult : (createAt .standard none locale visit above).result s = (.ok q, t)) :
    q = { visit, above, locale } ∧ visit.node.IsMade t ∧ t.Constructive := by
  unfold createAt at hresult
  cases hnode : visit.node with
  | missing name index a => exact absurd hnode (hfound name index a)
  | slot h name index a =>
    rw [hnode] at hresult
    obtain ⟨⟨⟩, u, hu, hresult⟩ := result_bind_eq_ok_iff.1 hresult
    cases hresult
    have hh : s.Has h.place := hp.node.has _ (congrArg Node.place? hnode)
    have hmade := createSlot_makes hs hh hmakers hu
    rw [show (Pointer.mk visit above locale).node.index = index from
      congrArg Node.index hnode] at hmade
    have hmakers' := createSlot_constructive { visit, above, locale } h name hmakers
    rw [hu] at hmakers'
    exact ⟨rfl, hmade, hmakers'⟩
  | var scope name index =>
    rw [hnode] at hresult
    dsimp only at hresult
    rw [result_bind_ok (result_get s)] at hresult
    split at hresult
    · cases hresult
    · next hhas =>
      cases hresult
      exact ⟨rfl, by simpa [Node.IsMade] using hhas, hmakers⟩
  | items l name index =>
    rw [hnode] at hresult
    dsimp only at hresult
    cases index with
    | whole =>
      rw [result_bind_ok (result_place_whole (p := ⟨visit, above, locale⟩) "collection"
        (congrArg Node.index hnode))] at hresult
      cases hresult
      exact ⟨rfl, trivial, hmakers⟩
    | element i =>
      have hindex : (Pointer.mk visit above locale).node.index = .element i :=
        congrArg Node.index hnode
      cases hk : (Index.element i).place? with
      | none =>
        rw [result_bind_error (result_place_none "collection" hindex hk)] at hresult
        cases hresult
      | some k =>
        rw [result_bind_ok (result_place_element "collection" hindex hk)] at hresult
        obtain ⟨⟨⟩, u, hu, hresult⟩ := result_bind_eq_ok_iff.1 hresult
        cases hresult
        obtain ⟨hitem, hmakers'⟩ :=
          createListItem_makes (hp.node.has _ (congrArg Node.place? hnode)) hmakers hu
        exact ⟨rfl, .item hk rfl hitem, hmakers'⟩
  | _ =>
    rw [hnode] at hresult
    cases hresult
    exact ⟨rfl, trivial, hmakers⟩

end Pointer

end PathQuery
