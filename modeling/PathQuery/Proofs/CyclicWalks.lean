import PathQuery.Proofs.WalksDown

/-!
# Walks through graphs with cycles

A walk down does not enter a value that it is in already. That hides nothing: the way to a slot need
not come back to a value, so what a walk finds below a value it finds without entering it twice.

* names: `Store.SlotOf`, `Store.StepsTo`, `Store.Offers`.
* `offers_of_reaches`: a slot of an object that can be reached is found by steps to the values of
  slots. **`Walks.exists_of_stepsOutside`**: a walk down finds the slots to which such steps lead
  outside the values that it is in.
* **`descendants_reach_all`**: the walk down from a pointer ends, and finds them all.
-/

namespace PathQuery

open Relation (ReflTransGen)

namespace Store

variable {s : Store} {root u v w : Value} {node : Node} {l : Nat} {inside : List Value}

/-! ## Slots of values -/

/-- The node is a slot of the object, or of the end of an item of the list, and so on down. -/
inductive SlotOf (s : Store) : Value → Node → Prop
  | slot {v : Value} {h : Holder} {node : Node} (hv : v = h.value) (hnode : node ∈ s.childNodes h) :
    SlotOf s v node
  | item {v w : Value} {l i : Nat} {node : Node} (hv : (s.lists.get l)[i]? = some v)
    (hend : s.endUpTo? (maxIndirections - 1) v = some w) (h : SlotOf s w node) :
    SlotOf s (.list l) node

/-- One level down: from a value to that of one of its slots. -/
def StepsTo (s : Store) (v w : Value) : Prop := ∃ node, s.SlotOf v node ∧ node.end? s = some w

/-- The node is a slot of the value, or of one that levels down lead to. -/
def Offers (s : Store) (v : Value) (node : Node) : Prop :=
  ∃ w, ReflTransGen s.StepsTo v w ∧ s.SlotOf w node

theorem SlotOf.isObject (h : s.SlotOf v node) : v.isObject = true := by
  cases h with
  | slot hv => rw [hv, Holder.isObject_value]
  | item => rfl

theorem SlotOf.exists_item (h : s.SlotOf (.list l) node) :
    ∃ (i : Nat) (v w : Value), (s.lists.get l)[i]? = some v ∧
      s.endUpTo? (maxIndirections - 1) v = some w ∧ s.SlotOf w node := by
  cases h with
  | @slot _ h _ hv => cases h <;> cases hv
  | item hv hend h => exact ⟨_, _, _, hv, hend, h⟩

theorem SlotOf.offers (h : s.SlotOf v node) : s.Offers v node := ⟨v, .refl, h⟩

theorem Offers.of_stepsTo (h : s.StepsTo v w) (hw : s.Offers w node) : s.Offers v node := by
  obtain ⟨x, hwx, hx⟩ := hw
  exact ⟨x, .head h hwx, hx⟩

theorem Offers.cases (h : s.Offers v node) :
    s.SlotOf v node ∨ ∃ w, s.StepsTo v w ∧ s.Offers w node := by
  obtain ⟨x, hvx, hx⟩ := h
  rcases Relation.ReflTransGen.cases_head hvx with rfl | ⟨w, hvw, hwx⟩
  · exact .inl hx
  · exact .inr ⟨w, hvw, x, hwx, hx⟩

/-- A list offers what the ends of its items offer. -/
theorem offers_list_iff : s.Offers (.list l) node ↔
    ∃ (i : Nat) (v w : Value), (s.lists.get l)[i]? = some v ∧
      s.endUpTo? (maxIndirections - 1) v = some w ∧ s.Offers w node := by
  constructor
  · intro h
    rcases h.cases with h | ⟨x, ⟨m, hm, hx⟩, hoffers⟩
    · obtain ⟨i, v, w, hv, hw, h⟩ := h.exists_item
      exact ⟨i, v, w, hv, hw, h.offers⟩
    · obtain ⟨i, v, w, hv, hw, hm⟩ := hm.exists_item
      exact ⟨i, v, w, hv, hw, .of_stepsTo ⟨m, hm, hx⟩ hoffers⟩
  · rintro ⟨i, v, w, hv, hw, h⟩
    rcases h.cases with h | ⟨x, ⟨m, hm, hx⟩, hoffers⟩
    · exact (SlotOf.item hv hw h).offers
    · exact .of_stepsTo ⟨m, .item hv hw hm, hx⟩ hoffers

theorem endUpTo?_mono {n m : Nat} (hnm : n ≤ m) (h : s.endUpTo? n v = some w) :
    s.endUpTo? m v = some w := by
  induction n generalizing m v with
  | zero => cases v <;> cases h
  | succ n ih =>
    obtain ⟨m, rfl⟩ : ∃ k, m = k + 1 := ⟨m - 1, by omega⟩
    cases v with
    | cell c =>
      simp only [endUpTo?] at h ⊢
      exact ih (by omega) h
    | _ => exact h

/-- A slot offers what its value offers, or what the items of the list in it offer. -/
theorem offers_of_slot {h : Holder} {name : String} (hu : (s.slots h).get? name = some u)
    (hend : s.endUpTo? (maxIndirections - 1) u = some w) (hoffers : s.Offers w node) :
    s.Offers h.value node := by
  have hchild {index : Index} (hindex : .slot h (.bare name) index false ∈ s.slotNodes h name u) :
      s.SlotOf h.value (.slot h (.bare name) index false) :=
    .slot rfl (mem_childNodes.2 ⟨name, u, Table.get?_eq_some_iff.1 hu, hindex⟩)
  cases hitems : s.items? u with
  | none =>
    have hslot : .slot h (.bare name) .whole false ∈ s.slotNodes h name u :=
      mem_slotNodes_iff.2 (by rw [hitems])
    refine .of_stepsTo ⟨_, hchild hslot, ?_⟩ hoffers
    rw [Node.end?_slot, Node.immediate_slot_whole hu, hend]
  | some items =>
    obtain ⟨l, hl, rfl⟩ := items?_eq_some_iff.1 hitems
    obtain rfl : w = .list l :=
      (unwrapUpTo_of_endUpTo? (by decide) hend).symm.trans hl
    obtain ⟨i, v, x, hv, hx, hoffers⟩ := offers_list_iff.1 hoffers
    have hi := (List.getElem?_eq_some_iff.1 hv).1
    have hslot : .slot h (.bare name) (.element i) false ∈ s.slotNodes h name u :=
      mem_slotNodes_iff.2 (by rw [hitems]; exact ⟨i, hi, rfl⟩)
    refine .of_stepsTo ⟨_, hchild hslot, ?_⟩ hoffers
    rw [Node.end?_slot, Node.immediate_slot_element hu hitems, hv, Option.getD_some, hx]

/-- **What can be reached is offered.** Induction on the route. -/
theorem offers_of_reaches {h : Holder} (hends : s.Resolves root) (hv : s.Reaches root v)
    (hend : s.endUpTo? (maxIndirections - 1) v = some w) (hreach : s.Reaches v h.value)
    (hnode : node ∈ s.childNodes h) : s.Offers w node := by
  obtain ⟨route, hroute⟩ := hreach
  induction route generalizing v w with
  | nil =>
    obtain rfl := Option.some.inj hroute
    obtain rfl : h.value = w := by cases h <;> exact Option.some.inj hend
    exact (SlotOf.slot rfl hnode).offers
  | cons x route ih =>
    obtain ⟨u, hu, hroute⟩ := Option.bind_eq_some_iff.1 hroute
    have hreach := hv.trans ⟨[x], by rw [follow, hu]; rfl⟩
    obtain ⟨y, hy⟩ := hends u hreach
    have hoffers := ih hreach hy hroute
    cases v <;> cases x <;> simp only [hop, reduceCtorEq, Option.some.injEq] at hu
    · obtain rfl := Option.some.inj hend
      exact offers_list_iff.2 ⟨_, _, _, hu, hy, hoffers⟩
    · obtain rfl := Option.some.inj hend
      exact offers_of_slot (h := .map _) hu hy hoffers
    · obtain rfl := Option.some.inj hend
      exact offers_of_slot (h := .bean _) hu hy hoffers
    · subst hu
      have hcell := endUpTo?_mono (n := 1022) (m := maxIndirections - 1) (by decide) hend
      exact Option.some.inj (hy.symm.trans hcell) ▸ hoffers

/-- Only from an object there is a way to an object. -/
theorem isObject_of_reaches (h : s.Reaches v w) (hw : w.isObject = true) : v.isObject = true := by
  cases hv : v.isObject with
  | true => rfl
  | false =>
    have hmem : w ∈ [v] := h.mem (List.mem_singleton_self v) fun u hu u' hu' => by
      rw [List.mem_singleton.1 hu, held_eq_nil hv] at hu'
      cases hu'
    rw [List.mem_singleton.1 hmem, hv] at hw
    cases hw

/-! ## Ways that do not come back -/

/-- One level down, to a value that is none of these. -/
def StepsOutside (s : Store) (inside : List Value) (v w : Value) : Prop :=
  s.StepsTo v w ∧ w ∉ inside

/-- **A way down need not come back to its start**: it can begin with the last step from there. -/
theorem exists_of_stepsOutside (h : ReflTransGen (s.StepsOutside inside) v w) :
    w = v ∨ ∃ u, s.StepsTo v u ∧ u ∉ v :: inside ∧
      ReflTransGen (s.StepsOutside (v :: inside)) u w := by
  induction h with
  | refl => exact .inl rfl
  | @tail x w _ hstep ih =>
    by_cases hw : w = v
    · exact .inl hw
    · have hout : w ∉ v :: inside := List.not_mem_cons_of_ne_of_not_mem hw hstep.2
      rcases ih with rfl | ⟨u, hu, huout, hux⟩
      · exact .inr ⟨w, hstep.1, hout, .refl⟩
      · exact .inr ⟨u, hu, huout, hux.tail ⟨hstep.1, hout⟩⟩

theorem isObject_of_stepsOutside (h : ReflTransGen (s.StepsOutside inside) v w)
    (hw : s.SlotOf w node) : v.isObject = true := by
  rcases Relation.ReflTransGen.cases_head h with rfl | ⟨u, ⟨⟨_, hslot, -⟩, -⟩, -⟩
  · exact hw.isObject
  · exact hslot.isObject

end Store

namespace Pointer

variable {s : Store} {root v w : Value} {p q : Pointer} {inside : List Value} {node : Node}
variable {ps qs cs : List Pointer}

/-- Every slot of the value of a pointer is a child of the pointer. -/
theorem exists_isChild (h : s.SlotOf v node) (hend : p.node.end? s = some v) :
    ∃ c, IsChild s p c ∧ c.node = node := by
  induction h generalizing p with
  | slot hv hnode => exact ⟨_, .slot (hend.trans (congrArg some hv)) hnode, rfl⟩
  | @item v w l i node hv hw _ ih =>
    obtain ⟨hi, rfl⟩ := List.getElem?_eq_some_iff.1 hv
    obtain ⟨c, hc, hnode⟩ := ih ((end?_item hend hi p.node.name?).trans hw)
    exact ⟨c, .item hend hi hc, hnode⟩

/-- An object at the end of a node is its own end. -/
theorem endUpTo?_of_end? {n : Node} (hn : n.IsPlain) (hend : n.end? s = some v)
    (hobject : v.isObject = true) : s.endUpTo? (Store.maxIndirections - 1) v = some v := by
  have hcell : ∀ c, v ≠ .cell c := by
    rintro c rfl
    rw [Node.end?] at hend
    split at hend
    · exact Store.endUpTo?_ne_cell hend c rfl
    · next hlink =>
      have himmediate := Option.some.inj hend
      cases n with
      | slot | var | cell => exact hlink rfl
      | items l name index =>
        obtain rfl : index = .whole := by simpa [Node.isLink] using hlink
        cases himmediate
      | missing => cases (Store.select_null s _).symm.trans himmediate
      | leaf u =>
        obtain rfl : u = .cell c := himmediate
        cases hn
      | map | bean | null => cases himmediate
      | element | markupText => exact hn
  cases v <;> first | rfl | exact absurd rfl (hcell _) | cases hobject

theorem PointsInto.child (hp : p.PointsInto s root) (h : IsChild s p q) : q.PointsInto s root := by
  obtain ⟨v, hend⟩ := h.exists_end
  have hobject : v.isObject = true := by
    cases h with
    | slot hend' =>
      obtain rfl := Option.some.inj (hend'.symm.trans hend)
      exact Holder.isObject_value _
    | item hend' =>
      obtain rfl := Option.some.inj (hend'.symm.trans hend)
      rfl
  exact .of_isWithin ((hp.reaches_end hend hobject).1.child h)

/-- A walk stays in the graph. -/
theorem Walks.pointsInto (h : Walks s inside ps qs) (hps : ∀ p ∈ ps, p.PointsInto s root) :
    ∀ q ∈ qs, q.PointsInto s root := by
  induction h with
  | done => exact hps
  | stop _ _ _ ih =>
    obtain ⟨hp, hps⟩ := List.forall_mem_cons.1 hps
    exact List.forall_mem_cons.2 ⟨hp, ih hps⟩
  | enter _ _ hcs _ _ ihbelow ihrest =>
    obtain ⟨hp, hps⟩ := List.forall_mem_cons.1 hps
    refine List.forall_mem_cons.2 ⟨hp, List.forall_mem_append.2 ⟨?_, ihrest hps⟩⟩
    exact ihbelow fun c hc => hp.child (isChild_of_mem hp.isPlain hcs hc)

/-- What is found below the children of a pointer is all that levels down from its value lead to: a
way that does not come back to the value goes on from one of them. -/
theorem exists_below {below : List Pointer} (hclosed : s.IsClosed root) (hlists : s.ListsEnd root)
    (hp : p.PointsInto s root) (hcs : p.children s .standard = .ok cs)
    (hend : p.node.end? s = some v) (hmem : ∀ c ∈ cs, c ∈ below)
    (hbelow : ∀ c ∈ cs, ∀ u, c.node.end? s = some u → u ∉ v :: inside →
      ReflTransGen (s.StepsOutside (v :: inside)) u w → ∃ q ∈ below, q.node = node)
    (hway : ReflTransGen (s.StepsOutside inside) v w) (hslot : s.SlotOf w node) :
    ∃ q ∈ below, q.node = node := by
  have hchild {m : Node} (hm : s.SlotOf v m) : ∃ c ∈ cs, c.node = m := by
    obtain ⟨c, hc, hcm⟩ := exists_isChild hm hend
    exact ⟨c, (mem_children_iff hclosed hlists hp hcs).2 hc, hcm⟩
  rcases Store.exists_of_stepsOutside hway with rfl | ⟨u, ⟨m, hm, hu⟩, hout, hway⟩
  · obtain ⟨c, hc, hnode⟩ := hchild hslot
    exact ⟨c, hmem c hc, hnode⟩
  · obtain ⟨c, hc, rfl⟩ := hchild hm
    exact hbelow c hc u hu hout hway

/-- **A walk down finds the slots to which levels down lead outside the values that it is in.** -/
theorem Walks.exists_of_stepsOutside (hclosed : s.IsClosed root) (hlists : s.ListsEnd root)
    (h : Walks s inside ps qs) (hps : ∀ p ∈ ps, p.PointsInto s root) (hp : p ∈ ps)
    (hend : p.node.end? s = some v) (hv : v ∉ inside)
    (hway : ReflTransGen (s.StepsOutside inside) v w) (hslot : s.SlotOf w node) :
    ∃ q ∈ qs, q.node = node := by
  induction h generalizing p v with
  | done => cases hp
  | @stop inside p' ps rest v' hv' hstops _ ih =>
    obtain ⟨hp', hps⟩ := List.forall_mem_cons.1 hps
    rcases List.mem_cons.1 hp with rfl | hp
    · obtain rfl := Option.some.inj (((value_eq_ok_iff hp'.isPlain).1 hv').symm.trans hend)
      have hobject := Store.isObject_of_stepsOutside hway hslot
      have hatom : (v'.isNull || v'.isScalar) = false := by
        cases v' <;> first | rfl | cases hobject
      rw [Value.stops, hatom, Bool.false_or, List.any_eq_true] at hstops
      obtain ⟨u, hu, hsame⟩ := hstops
      exact absurd (Value.eq_of_same hobject hsame ▸ hu) hv
    · obtain ⟨q, hq, hnode⟩ := ih hps hp hend hv hway
      exact ⟨q, List.mem_cons_of_mem _ hq, hnode⟩
  | @enter inside p' ps cs below rest v' hv' _ hcs hbelow _ ihbelow ihrest =>
    obtain ⟨hp', hps⟩ := List.forall_mem_cons.1 hps
    rcases List.mem_cons.1 hp with rfl | hp
    · obtain rfl := Option.some.inj (((value_eq_ok_iff hp'.isPlain).1 hv').symm.trans hend)
      have hinto : ∀ c ∈ cs, c.PointsInto s root :=
        fun c hc => hp'.child (isChild_of_mem hp'.isPlain hcs hc)
      obtain ⟨q, hq, hnode⟩ := exists_below hclosed hlists hp' hcs hend (fun c => hbelow.mem)
        (fun c hc u => ihbelow hinto hc) hway hslot
      exact ⟨q, List.mem_cons_of_mem _ (List.mem_append_left _ hq), hnode⟩
    · obtain ⟨q, hq, hnode⟩ := ihrest hps hp hend hv hway
      exact ⟨q, List.mem_cons_of_mem _ (List.mem_append_right _ hq), hnode⟩

/-- **The walk down ends on every graph, and still reaches everything.** Let no list contain itself
through lists and cells only, and let all values have an end. From any pointer the walk comes to an
end after finitely many steps; children are never cut short on the way; and for every key of every
object that can be reached from the value of the pointer, unless it holds an empty list, one of the
pointers that the walk finds points at the slot or at an element in it. -/
theorem descendants_reach_all (hclosed : s.IsClosed root) (hlists : s.ListsEnd root)
    (hends : s.Resolves root) (hp : p.PointsInto s root) :
    ∃ cs v a qs, p.children s .standard = .ok cs ∧ p.value s .standard = .ok v ∧
      p.along s .standard .descendant = .ok a ∧ a.nodes = .ofList qs ∧
      Descent.Runs s ⟨[cs], [v]⟩ qs ∧
      (∀ q ∈ p :: qs, ∀ n, s.lists.size ≤ n →
        q.childrenUpTo s .standard n = q.children s .standard) ∧
      ∀ h name w, s.Reaches v h.value → (s.slots h).get? name = some w → s.items? w ≠ some [] →
        ∃ q ∈ qs, ∃ index, q.node = .slot h (.bare name) index false := by
  obtain ⟨cs, v, a, qs, hcs, hv, ha, hqs, hwalk⟩ := walks_descendants hclosed hends hp
  have hend := (value_eq_ok_iff hp.isPlain).1 hv
  have hinto : ∀ c ∈ cs, c.PointsInto s root :=
    fun c hc => hp.child (isChild_of_mem hp.isPlain hcs hc)
  refine ⟨cs, v, a, qs, hcs, hv, ha, hqs, ?_, ?_, fun h name w hreach hget hitems => ?_⟩
  · have hrest : Descent.Runs s ⟨[[]], [v]⟩ [] := .back rfl (.ended rfl)
    simpa using hwalk.runs hrest
  · have hall := List.forall_mem_cons.2 ⟨hp, hwalk.pointsInto hinto⟩
    exact fun q hq n hn => childrenUpTo_eq hclosed hlists (hall q hq) hn
  · obtain ⟨index, hnode⟩ : ∃ index, .slot h (.bare name) index false ∈ s.slotNodes h name w := by
      simp only [Store.mem_slotNodes_iff]
      cases hw : s.items? w with
      | none => exact ⟨.whole, rfl⟩
      | some items =>
        have hlength : 0 < items.length :=
          List.length_pos_of_ne_nil fun hnil => hitems (by rw [hw, hnil])
        exact ⟨.element (0 : Nat), 0, hlength, rfl⟩
    have hnode := Store.mem_childNodes.2 ⟨name, w, Table.get?_eq_some_iff.1 hget, hnode⟩
    have hobject := Store.isObject_of_reaches hreach h.isObject_value
    obtain ⟨x, hway, hslot⟩ := Store.offers_of_reaches hends (hp.reaches_end hend hobject).2
      (endUpTo?_of_end? hp.isPlain hend hobject) hreach hnode
    have hway : ReflTransGen (s.StepsOutside []) v x :=
      Relation.ReflTransGen.mono (fun _ _ hstep => ⟨hstep, List.not_mem_nil⟩) _ _ hway
    obtain ⟨q, hq, hqnode⟩ := exists_below hclosed hlists hp hcs hend (fun c => hwalk.mem)
      (fun c hc u hu hout hway =>
        hwalk.exists_of_stepsOutside hclosed hlists hinto hc hu hout hway hslot) hway hslot
    exact ⟨q, hq, index, hqnode⟩

/-- A map that holds itself, in a slot, in a bean and in a list of lists, through a cell. -/
def whirl : Store where
  lists := ⟨#[[.list 1, .bool true], [.cell 0, .null], []]⟩
  maps := ⟨#[.ofList [("b", .list 0), ("me", .map 0), ("x", .bean 0)]]⟩
  beans := ⟨#[{ properties := .ofList [("none", .list 2), ("up", .cell 0)] }]⟩
  cells := ⟨#[.map 0]⟩

/-- The slot in which the map holds itself. -/
def whirlSelf : Pointer :=
  Pointer.child { visit := { node := .map 0 none, occasion := {} } } {}
    (.slot (.map 0) (.bare "me") .whole false)

theorem mem_of_reaches_whirl {v : Value} (h : whirl.Reaches (.map 0) v) :
    v ∈ [Value.map 0, .list 0, .bean 0, .list 1, .bool true, .cell 0, .null, .list 2] :=
  h.mem (List.mem_cons_self ..) (by decide)

theorem isClosed_whirl : whirl.IsClosed (.map 0) := by
  intro v o hv ho
  have hmem := mem_of_reaches_whirl hv
  simp only [List.mem_cons, List.not_mem_nil, or_false] at hmem
  rcases hmem with rfl | rfl | rfl | rfl | rfl | rfl | rfl | rfl <;> cases ho <;>
    simp [Store.Has, whirl, Pool.size]

theorem listsEnd_whirl : whirl.ListsEnd (.map 0) := by
  let rank : Value → Nat
    | .list 0 => 3
    | .list 1 => 2
    | .cell _ => 1
    | _ => 0
  refine Store.listsEnd_of_rank rank (fun l v hl hv => ?_) fun c hc => ?_
  · have hmem := mem_of_reaches_whirl hl
    simp only [List.mem_cons, List.not_mem_nil, or_false, reduceCtorEq, false_or,
      Value.list.injEq] at hmem
    rcases hmem with rfl | rfl | rfl
    · obtain rfl | rfl : v = .list 1 ∨ v = .bool true := List.mem_pair.1 hv <;> decide
    · obtain rfl | rfl : v = .cell 0 ∨ v = .null := List.mem_pair.1 hv <;> decide
    · cases hv
  · have hmem := mem_of_reaches_whirl hc
    simp only [List.mem_cons, List.not_mem_nil, or_false, reduceCtorEq, false_or,
      Value.cell.injEq] at hmem
    subst hmem
    decide

theorem resolves_whirl : whirl.Resolves (.map 0) := by
  intro v hv
  have hmem := mem_of_reaches_whirl hv
  simp only [List.mem_cons, List.not_mem_nil, or_false] at hmem
  rcases hmem with rfl | rfl | rfl | rfl | rfl | rfl | rfl | rfl <;> exact ⟨_, rfl⟩

/-- The walk comes round to the map below the first item of the first item, finds its slots there,
and goes into none of them. -/
theorem descendants_reach_all_whirl :
    whirl.IsClosed (.map 0) ∧ whirl.ListsEnd (.map 0) ∧ whirl.Resolves (.map 0) ∧
      ¬whirl.Acyclic (.map 0) ∧ whirlSelf.PointsInto whirl (.map 0) ∧
      ∃ cs v a qs, whirlSelf.children whirl .standard = .ok cs ∧
        whirlSelf.value whirl .standard = .ok v ∧
        whirlSelf.along whirl .standard .descendant = .ok a ∧ a.nodes = .ofList qs ∧
        qs.map (·.path whirl) = ["/me/b[1]", "/me/b[1][1]/b[1]", "/me/b[1][1]/b[2]",
          "/me/b[1][1]/me", "/me/b[1][1]/x", "/me/b[1][1]/x/up", "/me/b[2]", "/me/me", "/me/x",
          "/me/x/up"] ∧
        Descent.Runs whirl ⟨[cs], [v]⟩ qs ∧
        (∀ q ∈ whirlSelf :: qs, ∀ n, whirl.lists.size ≤ n →
          q.childrenUpTo whirl .standard n = q.children whirl .standard) ∧
        ∀ h name w, whirl.Reaches v h.value → (whirl.slots h).get? name = some w →
          whirl.items? w ≠ some [] →
          ∃ q ∈ qs, ∃ index, q.node = .slot h (.bare name) index false := by
  have hcycle : ¬whirl.Acyclic (.map 0) := fun h =>
    h.noReturn (v := .map 0) (.refl ..) (w := .map 0) (by decide) (.refl ..)
  have hinto : whirlSelf.PointsInto whirl (.map 0) := ⟨trivial, .inr ⟨[.key "me"], rfl⟩⟩
  obtain ⟨cs, v, a, qs, hcs, hv, ha, hqs, hall⟩ :=
    descendants_reach_all isClosed_whirl listsEnd_whirl resolves_whirl hinto
  refine ⟨isClosed_whirl, listsEnd_whirl, resolves_whirl, hcycle, hinto, cs, v, a, qs, hcs, hv, ha,
    hqs, ?_, hall⟩
  have hpaths : (whirlSelf.along whirl .standard .descendant).toOption.map
      (fun a => a.nodes.items.map (·.path whirl)) =
        some ["/me/b[1]", "/me/b[1][1]/b[1]", "/me/b[1][1]/b[2]", "/me/b[1][1]/me",
          "/me/b[1][1]/x", "/me/b[1][1]/x/up", "/me/b[2]", "/me/me", "/me/x", "/me/x/up"] := by
    decide +kernel
  rw [ha] at hpaths
  simpa [Except.toOption, hqs] using hpaths

end Pointer

end PathQuery
