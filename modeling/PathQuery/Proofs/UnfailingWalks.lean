import PathQuery.Proofs.ForwardAxes

/-!
# Walks that do not fail

A walk fails where a link leads to no value: to a value that no pointer can be made for, or through
too many cells. Where every value has an end the axes find what there is, and so does a walk.

* names: `Store.Resolves`, `Pointer.IsWithin`, `Axis.isForward`.
* `exists_children`: children. **`exists_along`**: an axis. **`failure_walk_of_resolves`**: the
  steps of a path without predicates.
-/

namespace PathQuery

/-! ## Sequences -/

theorem Except.exists_mapM {α β ε : Type} {f : α → Except ε β} {as : List α}
    (h : ∀ a ∈ as, ∃ b, f a = .ok b) : ∃ bs, as.mapM f = .ok bs := by
  induction as with
  | nil => exact ⟨[], rfl⟩
  | cons a as ih =>
    obtain ⟨b, hb⟩ := h a (List.mem_cons_self ..)
    obtain ⟨bs, hbs⟩ := ih fun a ha => h a (List.mem_cons_of_mem _ ha)
    exact ⟨b :: bs, Except.mapM_eq_ok_iff.2 (.cons hb (Except.mapM_eq_ok_iff.1 hbs))⟩

namespace Nodes

variable {a b : Nodes} {f : Pointer → Nodes}

theorem eq_ofList (h : a.failure = none) : a = .ofList a.items := by rw [ofList, ← h]

theorem failure_append_of (ha : a.failure = none) (hb : b.failure = none) :
    (a ++ b).failure = none := by
  obtain ⟨as, _ | e⟩ := a
  · exact hb
  · cases ha

theorem failure_flatMap (ha : a.failure = none) (hf : ∀ p ∈ a.items, (f p).failure = none) :
    (a.flatMap f).failure = none := by
  obtain ⟨items, failure⟩ := a
  induction items with
  | nil => exact ha
  | cons p items ih =>
    exact failure_append_of (hf p (List.mem_cons_self ..))
      (ih ha fun q hq => hf q (List.mem_cons_of_mem _ hq))

end Nodes

/-! ## Values with an end -/

/-- All values that can be reached have an end, through few enough cells. -/
def Store.Resolves (s : Store) (root : Value) : Prop :=
  ∀ v, s.Reaches root v → ∃ w, s.endUpTo? (maxIndirections - 1) v = some w

theorem Store.Resolves.congr {s t : Store} {root : Value} (h : s.Resolves root)
    (ht : s.SameGraph t) : t.Resolves root := by
  simpa only [Resolves, ht.reaches, Store.endUpTo?_congr ht.cells] using h

namespace Pointer

variable {s : Store} {root : Value} {p q : Pointer}

/-- The pointer is of the standard registry and names a value that can be reached. -/
structure IsWithin (s : Store) (root : Value) (p : Pointer) : Prop where
  isPlain : p.node.IsPlain
  reaches : s.Reaches root (p.node.immediate s)

theorem IsAddressed.isWithin {root : Holder} (hp : IsAddressed s root p) :
    IsWithin s root.value p :=
  ⟨hp.isPlain, hp.choose_spec.reaches_immediate p.node rfl⟩

namespace IsWithin

theorem reaches_end {v : Value} (hp : IsWithin s root p) (hend : p.node.end? s = some v) :
    s.Reaches root v := hp.reaches.trans (Node.reaches_end hend)

theorem item {l i : Nat} (hp : IsWithin s root p) (hend : p.node.end? s = some (.list l))
    (hi : i < (s.lists.get l).length) : IsWithin s root (p.item s l p.node.name? i) where
  isPlain := isPlain_item p l _ i
  reaches := by
    rw [immediate_item hend, List.getElem?_eq_getElem hi, Option.getD_some]
    exact (hp.reaches_end hend).trans (Store.reaches_of_mem_held (List.getElem_mem hi))

theorem child (hp : IsWithin s root p) (h : IsChild s p q) : IsWithin s root q where
  isPlain := h.isSingle.1
  reaches := by
    obtain ⟨v, hend⟩ := h.exists_end
    obtain ⟨u, hu, hreach⟩ := h.exists_immediate hend
    exact (hp.reaches_end hend).trans ((Store.reaches_of_mem_held hu).trans hreach)

theorem congr {t : Store} (ht : s.SameGraph t) (hp : IsWithin s root p) : IsWithin t root p :=
  ⟨hp.isPlain, by rw [ht.immediate, ht.reaches]; exact hp.reaches⟩

theorem exists_value (hends : s.Resolves root) (hp : IsWithin s root p) :
    ∃ v, p.value s .standard = .ok v := by
  simp only [value_eq_ok_iff hp.isPlain]
  rw [Node.end?]
  split
  · exact hends _ hp.reaches
  · exact ⟨_, rfl⟩

/-- Where every value has an end the children are found, through however many lists. -/
theorem exists_childrenUpTo (hends : s.Resolves root) (n : Nat) (hp : IsWithin s root p) :
    ∃ cs, p.childrenUpTo s .standard n = .ok cs := by
  have hwith {p : Pointer} {inner : Pointer → Except PathError (List Pointer)}
      (hp : IsWithin s root p) (hinner : ∀ {q}, IsWithin s root q → ∃ cs, inner q = .ok cs) :
      ∃ cs, p.childrenWith s .standard inner = .ok cs := by
    obtain ⟨v, hv⟩ := hp.exists_value hends
    rw [childrenWith_eq hp.isPlain, hv]
    cases v with
    | list l =>
      have hend := (value_eq_ok_iff hp.isPlain).1 hv
      obtain ⟨css, hcss⟩ : ∃ css, ((List.range (s.lists.get l).length).map
          (p.item s l p.node.name?)).mapM inner = .ok css := by
        refine Except.exists_mapM fun q hq => ?_
        obtain ⟨i, hi, rfl⟩ := List.mem_map.1 hq
        exact hinner (hp.item hend (List.mem_range.1 hi))
      exact ⟨css.flatten, by simp only [Except.ok_bind, hcss]; rfl⟩
    | _ => exact ⟨_, rfl⟩
  induction n generalizing p with
  | zero => exact hwith hp fun _ => ⟨[], rfl⟩
  | succ n ih => exact hwith hp ih

theorem exists_children (hends : s.Resolves root) (hp : IsWithin s root p) :
    ∃ cs, p.children s .standard = .ok cs := hp.exists_childrenUpTo hends _

end IsWithin

/-! ## Axes -/

theorem failure_subtreeUpTo (hends : s.Resolves root) (n : Nat) (inside : List Value)
    (hp : IsWithin s root p) :
    (p.subtreeUpTo s .standard n inside fun _ => .ended).nodes.failure = none := by
  induction n generalizing inside p with
  | zero =>
    obtain ⟨v, hv⟩ := hp.exists_value hends
    obtain ⟨cs, hcs⟩ := hp.exists_children hends
    unfold subtreeUpTo
    simp only [hv, hcs]
    split <;> rfl
  | succ n ih =>
    obtain ⟨v, hv⟩ := hp.exists_value hends
    cases hstops : v.isNull || v.isScalar || inside.any (·.same v) with
    | true => rw [subtreeUpTo_of_stops hv hstops, Search.nodes_found]; rfl
    | false =>
      obtain ⟨cs, hcs⟩ := hp.exists_children hends
      rw [subtreeUpTo_of_goes_on hv hstops, hcs, Except.ok_bind, Except.pure_eq_ok,
        Search.ofExcept, Search.nodes_found, Search.nodes_each (nodes_subtreeUpTo s .standard n _),
        Search.nodes_ended, Nodes.append_nil, Nodes.failure_ofList_append]
      exact Nodes.failure_flatMap rfl fun c hc => ih _ (hp.child (isChild_of_mem hp.isPlain hcs hc))

theorem exists_descendants (hends : s.Resolves root) (hp : IsWithin s root p) :
    ∃ a, p.descendants s .standard = .ok a ∧ a.nodes.failure = none := by
  obtain ⟨v, hv⟩ := hp.exists_value hends
  obtain ⟨cs, hcs⟩ := hp.exists_children hends
  refine ⟨_, Except.bind_eq_ok_iff.2 ⟨cs, hcs, Except.bind_eq_ok_iff.2 ⟨v, hv, rfl⟩⟩, ?_⟩
  rw [Search.nodes_each (nodes_subtreeUpTo s .standard _ _), Search.nodes_ended, Nodes.append_nil]
  exact Nodes.failure_flatMap rfl fun c hc =>
    failure_subtreeUpTo hends _ _ (hp.child (isChild_of_mem hp.isPlain hcs hc))

theorem exists_descendantsOrSelf (hends : s.Resolves root) (hp : IsWithin s root p) :
    ∃ a, p.descendantsOrSelf s .standard = .ok a ∧ a.nodes.failure = none := by
  obtain ⟨a, ha, hfailure⟩ := exists_descendants hends hp
  refine ⟨_, Except.bind_eq_ok_iff.2 ⟨a, ha, rfl⟩, ?_⟩
  rw [Search.nodes_found, Nodes.failure_ofList_append, hfailure]

section Addressed

variable {root : Holder}

theorem exists_siblings (hends : s.Resolves root.value) (hp : IsAddressed s root p) :
    ∃ sides, p.siblings s .standard = .ok sides := by
  rw [siblings]
  split
  · exact ⟨_, rfl⟩
  · next parent hparent =>
    split
    · exact ⟨_, rfl⟩
    · have hwithin := ((kept_isAddressed s root).parent hp hparent).isWithin
      obtain ⟨cs, hcs⟩ := hwithin.exists_children hends
      exact ⟨_, by rw [hcs]; rfl⟩

theorem exists_followingSiblings_of_resolves (hends : s.Resolves root.value)
    (hp : IsAddressed s root p) :
    ∃ qs, p.followingSiblings s .standard = .ok qs := by
  obtain ⟨sides, hsides⟩ := exists_siblings hends hp
  exact ⟨sides.2, Except.map_eq_ok_iff.2 ⟨sides, hsides, rfl⟩⟩

theorem exists_following (hends : s.Resolves root.value) (hp : IsAddressed s root p) :
    ∃ qs, p.following s .standard = .ok qs := by
  obtain ⟨levels, hlevels⟩ : ∃ levels, (p :: p.ancestors).mapM (level s) = .ok levels := by
    refine Except.exists_mapM fun q hq => ?_
    have hq := (kept_isAddressed s root).level hp hq
    obtain ⟨after, hafter⟩ := exists_followingSiblings_of_resolves hends hq
    obtain ⟨trees, htrees⟩ : ∃ trees, after.mapM (fun q => do
        pure (q :: (← (← q.descendants s .standard).all))) = Except.ok trees := by
      refine Except.exists_mapM fun x hx => ?_
      obtain ⟨a, ha, hfailure⟩ := exists_descendants hends
        ((kept_isAddressed s root).followingSiblings hq hafter hx).isWithin
      exact ⟨x :: a.nodes.items, by
        rw [ha, Except.ok_bind, Environment.all_of_failure_eq_none hfailure]; rfl⟩
    exact ⟨trees.flatten, by rw [level, hafter, Except.ok_bind, htrees]; rfl⟩
  exact ⟨levels.flatten, by rw [following_eq, hlevels]; rfl⟩

end Addressed

end Pointer

/-- The axis leads to a node itself, down, or on to what follows. -/
def Axis.isForward : Axis → Bool
  | .self | .child | .descendant | .descendantOrSelf | .followingSibling | .following => true
  | _ => false

theorem Axis.ne_attribute {axis : Axis} (h : axis.isForward = true) : axis ≠ .attribute := by
  rintro rfl
  cases h

namespace Pointer

variable {s : Store} {root : Holder} {p : Pointer}

/-- **Where every value has an end no forward axis fails.** -/
theorem exists_along {axis : Axis} (hends : s.Resolves root.value) (haxis : axis.isForward = true)
    (hp : IsAddressed s root p) :
    ∃ a, p.along s .standard axis = .ok a ∧ a.nodes.failure = none := by
  have hlist {x : Except PathError (List Pointer)} (h : ∃ qs, x = .ok qs) :
      ∃ a, x.map Search.ofList = .ok a ∧ a.nodes.failure = none := by
    obtain ⟨qs, rfl⟩ := h
    exact ⟨_, rfl, by rw [Search.nodes_ofList, Nodes.failure_ofList]⟩
  cases axis with
  | self => exact ⟨_, rfl, by rw [Search.nodes_ofList, Nodes.failure_ofList]⟩
  | child => exact hlist (hp.isWithin.exists_children hends)
  | descendant => exact exists_descendants hends hp.isWithin
  | descendantOrSelf => exact exists_descendantsOrSelf hends hp.isWithin
  | followingSibling => exact hlist (exists_followingSiblings_of_resolves hends hp)
  | following => exact hlist (exists_following hends hp)
  | _ => cases haxis

end Pointer

/-! ## Walks -/

namespace Environment

variable {s : Store} {root : Holder} {env : Environment} {axis : Axis} {test : NodeTest}
variable {o : Occasion} {a : Search}

theorem failure_candidates (hends : s.Resolves root.value) (haxis : axis.isForward = true)
    {p : Pointer} (hp : Pointer.IsAddressed s root p) :
    (candidates .standard s axis test p).nodes.failure = none := by
  obtain ⟨a, ha, hfailure⟩ := Pointer.exists_along hends haxis hp
  rw [candidates, ha]
  show (Search.filter _ a).nodes.failure = none
  rw [Search.nodes_filter]
  exact hfailure

/-- A step puts one after another what it finds from every node; it compares paths if its axis
overlaps and there is a second node. -/
theorem nodes_advance_of_ofList {f : Pointer → Search} {ps : List Pointer}
    (ha : a.nodes = .ofList ps) :
    (advance s axis f a).nodes =
      let found := (Nodes.ofList ps).flatMap fun p => (f p).nodes
      if axis.overlaps = true ∧ 2 ≤ ps.length then
        { found with items := Pointer.unique s found.items } else found := by
  rw [← ha]
  have hlength : ps.length = a.nodes.items.length := by rw [ha, Nodes.items_ofList]
  have hfailure : a.nodes.failure = none := by rw [ha, Nodes.failure_ofList]
  simp only [hlength, advance.eq_def]
  cases axis.overlaps with
  | false => simp [Search.nodes_gather]
  | true =>
    cases a with
    | ended => simp
    | broken e => simp [Nodes.fail] at hfailure
    | found p more =>
      cases hmore : more () with
      | ended =>
        have hone : ((Nodes.ofList [p]).flatMap fun p => (f p).nodes) = (f p).nodes :=
          Nodes.append_nil _
        simp [hmore, hone]
      | broken e => simp [hmore, Nodes.fail] at hfailure
      | found q rest => simp [hmore, Search.nodes_gather]

theorem failure_advance {f : Pointer → Search} (ha : a.nodes.failure = none)
    (hf : ∀ p ∈ a.nodes.items, (f p).nodes.failure = none) :
    (advance s axis f a).nodes.failure = none := by
  have hfound := Nodes.failure_flatMap (f := fun p => (f p).nodes) ha hf
  rw [Nodes.eq_ofList ha] at hfound
  rw [nodes_advance_of_ofList (Nodes.eq_ofList ha)]
  dsimp only
  split <;> exact hfound

/-- **Where every value has an end no walk along forward axes fails**, unless a predicate does. -/
theorem failure_walk_of_resolves {steps : List Step} (hends : s.Resolves root.value)
    (hsteps : ∀ step ∈ steps, step.axis.isForward = true ∧ step.predicates = [])
    (ha : a.nodes.failure = none) (hp : ∀ p ∈ a.nodes.items, Pointer.IsAddressed s root p) :
    (env.walk .standard steps o s a).nodes.failure = none := by
  induction steps generalizing o a with
  | nil => rwa [walk]
  | cons step steps ih =>
    obtain ⟨axis, test, predicates⟩ := step
    obtain ⟨⟨haxis, hnone⟩, hrest⟩ := List.forall_mem_cons.1 hsteps
    obtain rfl : predicates = [] := hnone
    have hgraph := Store.SameGraph.on s (o.part 0)
    rw [walk_cons]
    refine ih hrest (failure_advance ha fun p hp' => ?_) fun q hq => ?_
    · exact failure_candidates (hends.congr hgraph) haxis
        (Pointer.isAddressed_congr hgraph ▸ hp p hp')
    · obtain ⟨p, hp', hq⟩ := mem_advance hq
      rw [Pointer.isAddressed_congr hgraph]
      refine kept_candidates (fun hp hb hq => ?_) ?_ (mem_find hq)
      · exact (Pointer.kept_isAddressed _ root).along (Axis.ne_attribute haxis) hp hb hq
      · exact Pointer.isAddressed_congr hgraph ▸ hp p hp'

end Environment

end PathQuery
