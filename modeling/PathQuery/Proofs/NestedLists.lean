import PathQuery.Proofs.UnfailingWalks

/-!
# Lists inside lists

The children of a list are taken from its items, those of an item that is a list from the items of
that list, and so on down. Where no list contains itself this comes to an end, since there are only
so many lists.

* names: `Store.IsClosed`, `Store.ListsEnd`, `Pointer.PointsInto`.
* **`childrenUpTo_eq`**: the children of a pointer are never cut short. `mem_children_iff`: they are
  just the slots that the items lead to.
-/

namespace PathQuery

namespace Except

universe u

variable {ε : Type u} {α β : Type u} {f g : α → Except ε β} {as : List α} {bs : List β}

theorem mapM_congr (h : ∀ a ∈ as, f a = g a) : as.mapM f = as.mapM g := by
  induction as with
  | nil => rfl
  | cons a as ih =>
    rw [List.mapM_cons, List.mapM_cons, h a (List.mem_cons_self ..),
      ih fun b hb => h b (List.mem_cons_of_mem _ hb)]

theorem exists_of_mapM (h : as.mapM f = .ok bs) {a : α} (ha : a ∈ as) : ∃ b, f a = .ok b := by
  rw [mapM_eq_ok_iff] at h
  induction h with
  | nil => cases ha
  | cons hb _ ih =>
    rcases List.mem_cons.1 ha with rfl | ha
    · exact ⟨_, hb⟩
    · exact ih ha

end Except

namespace Store

variable {s : Store} {root v w : Value} {l : Nat}

/-- The objects that can be reached are in the store. -/
def IsClosed (s : Store) (root : Value) : Prop :=
  ∀ v o, s.Reaches root v → v.place? = some o → s.Has o

/-- No list contains itself through lists and cells only. -/
def ListsEnd (s : Store) (root : Value) : Prop :=
  ∀ l route, s.Reaches root (.list l) → Hop.NoKey route →
    s.follow (.list l) route = some (.list l) → route = []

theorem Acyclic.isClosed (h : s.Acyclic root) : s.IsClosed root := fun _ _ => h.has

theorem IsClosed.isOwn (h : s.IsClosed root) (hv : s.Reaches root v)
    (hobject : v.isObject = true) : s.IsOwn v := by
  obtain ⟨o, ho⟩ := Option.isSome_iff_exists.1 (v.isSome_place?.trans hobject)
  exact ⟨o, ho, h v o hv ho⟩

/-- Lists end if something goes down from a list to its items and from a cell to what is in it. -/
theorem listsEnd_of_rank (rank : Value → Nat)
    (hlist : ∀ l v, s.Reaches root (.list l) → v ∈ s.lists.get l → rank v < rank (.list l))
    (hcell : ∀ c, s.Reaches root (.cell c) → rank (s.cells.get c) < rank (.cell c)) :
    s.ListsEnd root := by
  have hdown (v : Value) (x : Hop) (hv : s.Reaches root v) (hkey : ∀ name, x ≠ .key name)
      {w : Value} (hw : s.hop v x = some w) : rank w < rank v := by
    cases v <;> cases x <;> simp only [hop, reduceCtorEq, Option.some.injEq] at hw
    · exact hlist _ _ hv (List.mem_of_getElem? hw)
    · exact absurd rfl (hkey _)
    · exact absurd rfl (hkey _)
    · exact hw ▸ hcell _ hv
  have hroute (route : List Hop) (v w : Value) (hv : s.Reaches root v) (hkeys : Hop.NoKey route)
      (hw : s.follow v route = some w) : rank w ≤ rank v ∧ (route ≠ [] → rank w < rank v) := by
    induction route generalizing v with
    | nil => exact ⟨(Option.some.inj hw ▸ le_refl _), fun h => absurd rfl h⟩
    | cons x route ih =>
      obtain ⟨u, hu, hw⟩ := Option.bind_eq_some_iff.1 hw
      have hlt := hdown v x hv (fun name h => hkeys name (h ▸ List.mem_cons_self ..)) hu
      have hreach := hv.trans ⟨[x], by rw [follow, hu]; rfl⟩
      have hle := (ih u hreach (fun name h => hkeys name (List.mem_cons_of_mem _ h)) hw).1
      exact ⟨hle.trans hlt.le, fun _ => hle.trans_lt hlt⟩
  intro l route hl hkeys hback
  by_contra hne
  exact lt_irrefl _ ((hroute route _ _ hl hkeys hback).2 hne)

/-- The lists that lead down to a value, each of them once, through lists and cells only. -/
structure ListTrail (s : Store) (root : Value) (seen : List Nat) (v : Value) : Prop where
  reaches : ∀ l ∈ seen, s.Reaches root (.list l)
  nodup : seen.Nodup
  leads : ∀ l ∈ seen, ∃ route, Hop.NoKey route ∧ route ≠ [] ∧ s.follow (.list l) route = some v

/-- A list that is met on the way down was not met before. -/
theorem ListTrail.nodup_cons {seen : List Nat} (h : s.ListsEnd root)
    (ht : s.ListTrail root seen (.list l)) : (l :: seen).Nodup := by
  refine List.nodup_cons.2 ⟨fun hl => ?_, ht.nodup⟩
  obtain ⟨route, hkeys, hne, hback⟩ := ht.leads l hl
  exact hne (h l route (ht.reaches l hl) hkeys hback)

/-- The trail goes on to what is at the end of an item. -/
theorem ListTrail.item {seen : List Nat} {i n : Nat} (h : s.ListsEnd root)
    (hl : s.Reaches root (.list l)) (ht : s.ListTrail root seen (.list l))
    (hv : (s.lists.get l)[i]? = some v) (hw : s.endUpTo? n v = some w) :
    s.ListTrail root (l :: seen) w where
  reaches := List.forall_mem_cons.2 ⟨hl, ht.reaches⟩
  nodup := ht.nodup_cons h
  leads := by
    obtain ⟨k, hk⟩ := follow_endUpTo? hw
    have hdown := follow_trans (follow_item hv) hk
    have hkeys : Hop.NoKey ([.item i] ++ List.replicate k .inside) :=
      (Hop.noKey_item i).append (Hop.noKey_replicate k)
    refine List.forall_mem_cons.2 ⟨⟨_, hkeys, by simp, hdown⟩, fun l' hl' => ?_⟩
    obtain ⟨route, hkeys', hne, hroute⟩ := ht.leads l' hl'
    exact ⟨_, hkeys'.append hkeys, by simp, follow_trans hroute hdown⟩

/-- There are no more lists on a trail than in the store. -/
theorem ListTrail.length_lt {seen : List Nat} (hclosed : s.IsClosed root) (h : s.ListsEnd root)
    (hl : s.Reaches root (.list l)) (ht : s.ListTrail root seen (.list l)) :
    seen.length < s.lists.size := by
  have hown : l :: seen ⊆ List.range s.lists.size := by
    intro l' hl'
    refine List.mem_range.2 (hclosed (.list l') (.list l') ?_ rfl)
    rcases List.mem_cons.1 hl' with rfl | hl'
    · exact hl
    · exact ht.reaches l' hl'
  simpa using (List.subperm_of_subset (ht.nodup_cons h) hown).length_le

end Store

/-! ## Pointers into a graph -/

/-- Nothing is inside nothing. -/
theorem Store.eq_null_of_reaches {s : Store} {v : Value} (h : s.Reaches .null v) : v = .null := by
  obtain ⟨_ | ⟨x, route⟩, hroute⟩ := h
  · exact (Option.some.inj hroute).symm
  · cases hroute

/-- What is at an index is nothing or inside the collection. -/
theorem Store.reaches_select (s : Store) (v : Value) (index : Index) :
    s.select v index = .null ∨ s.Reaches v (s.select v index) := by
  generalize hw : s.select v index = w
  refine or_iff_not_imp_left.2 fun hnull => ?_
  cases selects_of_select hw hnull with
  | whole | sole => exact .refl s v
  | item _ hl hitem =>
    have hv := (Reaches.refl s v).unwrap
    exact (hl ▸ hv).trans ⟨_, follow_item hitem⟩

namespace Node

variable {s : Store} {n m r : Node} {ns : List Node} {v : Value}

theorem immediate_items (l : Nat) (name : Option QName) (index : Index) :
    (items l name index).immediate s = s.select (.list l) index := by
  cases index with
  | whole => rfl
  | element i =>
    cases hplace : (Index.element i).place? with
    | none =>
      rw [Store.select_of_no_place hplace]
      simp [immediate, hplace]
    | some k =>
      rw [Store.select_of_list hplace rfl, List.getD_eq_getElem?_getD]
      simp [immediate, hplace]

/-- What a node shows is nothing or inside what it names. -/
theorem reaches_immediate (hn : n.IsPlain) (hbase : n.base s = .null ∨ s.Reaches v (n.base s)) :
    n.immediate s = .null ∨ s.Reaches v (n.immediate s) := by
  have himmediate : n.immediate s = .null ∨ s.Reaches (n.base s) (n.immediate s) := by
    cases n with
    | items l name index => exact immediate_items l name index ▸ s.reaches_select _ _
    | element | markupText => exact hn.elim
    | slot | missing | var => exact s.reaches_select _ _
    | map | bean | cell | leaf | null => exact .inr (.refl s _)
  rcases himmediate with hnull | hreach
  · exact .inl hnull
  · rcases hbase with hnull | hbase
    · exact .inl (Store.eq_null_of_reaches (hnull ▸ hreach))
    · exact .inr (hbase.trans hreach)

/-- What stands below a node is nothing or inside what the node shows. -/
theorem reaches_of_below (h : n.Below s m)
    (hn : n.immediate s = .null ∨ s.Reaches v (n.immediate s)) :
    m.immediate s = .null ∨ s.Reaches v (m.immediate s) := by
  have hend {w : Value} (hend : n.end? s = some w) : w = .null ∨ s.Reaches v w := by
    have hw := reaches_end hend
    rcases hn with hnull | hreach
    · exact .inl (Store.eq_null_of_reaches (hnull ▸ hw))
    · exact .inr (hreach.trans hw)
  refine reaches_immediate (isPlain_of_below h) ?_
  cases m with
  | slot holder name index isAttribute =>
    have hholder := (hend h).resolve_left holder.value_ne_null
    show s.slot holder name.text = _ ∨ s.Reaches v (s.slot holder name.text)
    rw [Store.slot]
    cases hget : (s.slots holder).get? name.text with
    | none => exact .inl rfl
    | some w => exact .inr (hholder.slot hget)
  | items l name index => exact .inr ((hend h).resolve_left Value.noConfusion)
  | missing => exact .inl rfl
  | _ => exact h.elim

/-- A linked chain leads to nothing or into what its root names. -/
theorem reaches_of_linked (hr : r.IsPlain) (h : Linked s r (n :: ns)) :
    n.immediate s = .null ∨ s.Reaches (r.base s) (n.immediate s) := by
  generalize hns : n :: ns = chain at h
  induction h generalizing n ns with
  | root hvariant =>
    obtain ⟨rfl, -⟩ := List.cons.inj hns
    rw [← base_of_isVariant hvariant]
    exact reaches_immediate (isPlain_of_isVariant hr hvariant) (.inr (.refl s _))
  | link hbelow _ ih =>
    obtain ⟨rfl, -⟩ := List.cons.inj hns
    exact reaches_of_below hbelow (ih rfl)

end Node

namespace Pointer

variable {s : Store} {root : Value} {p q : Pointer} {v : Value}

/-- The pointer is of the standard registry, and names nothing or a value that can be reached. -/
structure PointsInto (s : Store) (root : Value) (p : Pointer) : Prop where
  isPlain : p.node.IsPlain
  reaches : p.node.immediate s = .null ∨ s.Reaches root (p.node.immediate s)

namespace PointsInto

theorem of_isWithin (hp : p.IsWithin s root) : p.PointsInto s root := ⟨hp.isPlain, .inr hp.reaches⟩

/-- What a pointer into a graph shows is in the graph, if it is something. -/
theorem reaches_end (hp : p.PointsInto s root) (hend : p.node.end? s = some v)
    (hobject : v.isObject = true) : p.IsWithin s root ∧ s.Reaches root v := by
  rcases hp.reaches with hnull | hreach
  · have hv := Node.reaches_end hend
    rw [hnull] at hv
    rw [Store.eq_null_of_reaches hv] at hobject
    cases hobject
  · exact ⟨⟨hp.isPlain, hreach⟩, hreach.trans (Node.reaches_end hend)⟩

theorem item {l i : Nat} (hp : p.PointsInto s root) (hend : p.node.end? s = some (.list l))
    (hi : i < (s.lists.get l).length) : (p.item s l p.node.name? i).PointsInto s root :=
  .of_isWithin ((hp.reaches_end hend rfl).1.item hend hi)

end PointsInto

/-- **Navigation from a root leads into the graph of the root.** -/
theorem Obtained.pointsInto {origin : Pointer} (horigin : Origin s origin)
    (h : Obtained s origin p) : p.PointsInto s (origin.base s) where
  isPlain := (h.linked horigin).isPlain horigin.isPlain
  reaches := Node.reaches_of_linked horigin.isPlain (h.linked horigin)

/-- The item of a list that a pointer leads to shows the end of the item. -/
theorem end?_item {l i : Nat} (hend : p.node.end? s = some (.list l))
    (hi : i < (s.lists.get l).length) (name : Option QName) :
    (p.item s l name i).node.end? s =
      s.endUpTo? (Store.maxIndirections - 1) (s.lists.get l)[i] := by
  have himmediate := immediate_item hend name i
  rw [List.getElem?_eq_getElem hi, Option.getD_some] at himmediate
  have hlink : (p.item s l name i).node.isLink = true := by
    rcases item_cases (s := s) p l name i with ⟨-, hq⟩ | ⟨-, -, node, hn, hq, -, -⟩
    · rw [hq]
      rfl
    · rw [hq]
      cases hp : p.node <;> simp only [hp, Node.atIndex?, Option.some.injEq, reduceCtorEq] at hn <;>
        subst hn
      · rfl
      · -- a slot that does not exist leads to no list
        have hnull := Node.end?_of_isMissing (s := s) (n := p.node) (by rw [hp]; rfl)
        rw [hend] at hnull
        cases hnull
      · rfl
      · rfl
  rw [Node.end?, if_pos hlink, himmediate]

/-- The children of a pointer depend on how the items of its list are looked into, and on no more. -/
theorem childrenWith_congr {inner inner' : Pointer → Except PathError (List Pointer)}
    (hp : p.node.IsPlain)
    (hinner : ∀ l i, p.node.end? s = some (.list l) → i < (s.lists.get l).length →
      inner (p.item s l p.node.name? i) = inner' (p.item s l p.node.name? i)) :
    p.childrenWith s .standard inner = p.childrenWith s .standard inner' := by
  rw [childrenWith_eq hp, childrenWith_eq hp]
  cases hv : p.value s .standard with
  | error e => rfl
  | ok v =>
    cases v with
    | list l =>
      have hend := (value_eq_ok_iff hp).1 hv
      have hitems : ∀ q ∈ (List.range (s.lists.get l).length).map (p.item s l p.node.name?),
          inner q = inner' q := by
        intro q hq
        obtain ⟨i, hi, rfl⟩ := List.mem_map.1 hq
        exact hinner l i hend (List.mem_range.1 hi)
      simp only [Except.ok_bind, Except.mapM_congr hitems]
    | _ => rfl

/-- **Children are not cut short.** There are only so many lists, so with enough levels of them in
hand one more changes nothing. Induction on the levels, along the trail of lists met so far. -/
theorem childrenUpTo_eq_of_listTrail (hclosed : s.IsClosed root) (hlists : s.ListsEnd root)
    {n m : Nat} {seen : List Nat} (hp : p.PointsInto s root)
    (htrail : ∀ l, p.node.end? s = some (.list l) → s.ListTrail root seen (.list l))
    (hn : s.lists.size ≤ seen.length + n) (hm : s.lists.size ≤ seen.length + m) :
    p.childrenUpTo s .standard n = p.childrenUpTo s .standard m := by
  have hlt {l : Nat} (hend : p.node.end? s = some (.list l)) : seen.length < s.lists.size :=
    (htrail l hend).length_lt hclosed hlists (hp.reaches_end hend rfl).2
  induction n generalizing p m seen with
  | zero =>
    cases m with
    | zero => rfl
    | succ m =>
      exact childrenWith_congr hp.isPlain fun l i hend => absurd (hlt hend) (by omega)
  | succ n ih =>
    cases m with
    | zero => exact childrenWith_congr hp.isPlain fun l i hend => absurd (hlt hend) (by omega)
    | succ m =>
      refine childrenWith_congr hp.isPlain fun l i hend hi => ?_
      have hreach := (hp.reaches_end hend rfl).2
      have hnext (l' : Nat) (hend' : (p.item s l p.node.name? i).node.end? s = some (.list l')) :
          s.ListTrail root (l :: seen) (.list l') :=
        (htrail l hend).item hlists hreach (List.getElem?_eq_getElem hi)
          ((end?_item hend hi _).symm.trans hend')
      exact ih (hp.item hend hi) hnext (by simp only [List.length_cons]; omega)
        (by simp only [List.length_cons]; omega)
        fun hend' => (hnext _ hend').length_lt hclosed hlists
          ((hp.item hend hi).reaches_end hend' rfl).2

/-- **The children of a pointer are all of its children**: more levels of lists bring no more. -/
theorem childrenUpTo_eq (hclosed : s.IsClosed root) (hlists : s.ListsEnd root)
    (hp : p.PointsInto s root) {n : Nat} (hn : s.lists.size ≤ n) :
    p.childrenUpTo s .standard n = p.children s .standard :=
  have htrail (l : Nat) (_ : p.node.end? s = some (.list l)) : s.ListTrail root [] (.list l) :=
    ⟨by simp, .nil, by simp⟩
  childrenUpTo_eq_of_listTrail hclosed hlists hp htrail (by simpa using hn) (by simp)

/-- **The children of a pointer are the slots that the items of its lists lead to.** -/
theorem mem_children_iff (hclosed : s.IsClosed root) (hlists : s.ListsEnd root)
    (hp : p.PointsInto s root) {cs : List Pointer} (hcs : p.children s .standard = .ok cs) :
    q ∈ cs ↔ IsChild s p q := by
  refine ⟨isChild_of_mem hp.isPlain hcs, fun hq => ?_⟩
  induction hq generalizing cs with
  | slot hend hnode =>
    rw [children_of_holder hp.isPlain hend] at hcs
    exact Except.ok.inj hcs ▸ List.mem_map.2 ⟨_, hnode, rfl⟩
  | @item p q l i hend hi hq ih =>
    have hmore := childrenUpTo_eq hclosed hlists hp (Nat.le_succ s.lists.size)
    have hvalue := (value_eq_ok_iff hp.isPlain).2 hend
    rw [hcs, childrenUpTo, childrenWith_eq hp.isPlain, hvalue] at hmore
    obtain ⟨css, hcss, rfl⟩ := Except.map_eq_ok_iff.1 hmore
    have hitem : p.item s l p.node.name? i ∈
        (List.range (s.lists.get l).length).map (p.item s l p.node.name?) :=
      List.mem_map.2 ⟨i, List.mem_range.2 hi, rfl⟩
    obtain ⟨ds, hds⟩ := Except.exists_of_mapM hcss hitem
    exact (Except.mem_flatten_of_mapM hcss).2 ⟨_, hitem, ds, hds, ih (hp.item hend hi) hds⟩

end Pointer

end PathQuery
