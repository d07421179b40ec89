import PathQuery.Proofs.ForwardWalks
import PathQuery.Proofs.Preorders

/-!
# The axes part a document

In a flat graph a node is a child of the node above it, so its siblings are the children listed
before it and after it. Taken with the trees below them, level by level, they are all that the
document holds before the node, but for its ancestors, and all that it holds behind the node's own
tree.

* names: `Pointer.Splits`, `Pointer.Yields`.
* `level_of_inPreorder`, `levelBefore_of_inPreorder`: what is found at one level.
* **`exists_splits`**: where a node stands in the document, by induction from the root down.
* **`axes_partition`**: self, ancestor, descendant, following and preceding.
-/

namespace PathQuery

open Relation (ReflTransGen)

theorem Except.flatten_mapM_cons {α β ε : Type} {f : α → Except ε (List β)} {a : α} {as : List α}
    {xs ys : List β} (ha : f a = .ok xs)
    (has : (do let bss ← as.mapM f; pure bss.flatten) = Except.ok ys) :
    (do let bss ← (a :: as).mapM f; pure bss.flatten) = Except.ok (xs ++ ys) := by
  obtain ⟨bss, hbss, hflat⟩ := Except.bind_eq_ok_iff.1 has
  rw [List.mapM_cons, ha, Except.ok_bind, hbss, ← Except.ok.inj hflat]
  rfl

namespace Pointer

variable {s : Store} {root : Holder} {r p q x parent : Pointer}
variable {ps ps' qs qs' doc pre down post : List Pointer}

/-! ## Taking preorders apart -/

/-- There is one preorder only. -/
theorem InPreorder.unique (h : InPreorder s ps qs) (h' : InPreorder s ps qs') : qs = qs' := by
  induction h generalizing qs' with
  | nil =>
    cases h'
    rfl
  | cons hcs _ _ ihbelow ihrest =>
    cases h' with
    | cons hcs' hbelow hrest =>
      obtain rfl := Except.ok.inj (hcs.symm.trans hcs')
      rw [ihbelow hbelow, ihrest hrest]

theorem inPreorder_append_iff : InPreorder s (ps ++ ps') qs ↔
    ∃ xs ys, qs = xs ++ ys ∧ InPreorder s ps xs ∧ InPreorder s ps' ys := by
  constructor
  · intro h
    induction ps generalizing qs with
    | nil => exact ⟨[], qs, rfl, .nil, h⟩
    | cons p ps ih =>
      cases h with
      | @cons _ _ _ below _ hcs hbelow hrest =>
        obtain ⟨xs, ys, rfl, hxs, hys⟩ := ih hrest
        exact ⟨p :: (below ++ xs), ys, by simp, .cons hcs hbelow hxs, hys⟩
  · rintro ⟨xs, ys, rfl, hxs, hys⟩
    induction hxs with
    | nil => exact hys
    | cons hcs hbelow _ _ ih =>
      rw [List.cons_append, List.cons_append, List.append_assoc]
      exact .cons hcs hbelow ih

/-- The trees of which a preorder consists. -/
theorem InPreorder.exists_trees (h : InPreorder s ps qs) :
    ∃ trees, List.Forall₂ (fun p tree => InPreorder s [p] tree) ps trees ∧ trees.flatten = qs := by
  induction ps generalizing qs with
  | nil =>
    cases h
    exact ⟨[], .nil, rfl⟩
  | cons p ps ih =>
    obtain ⟨tree, rest, rfl, htree, hrest⟩ := inPreorder_append_iff.1 (List.singleton_append ▸ h)
    obtain ⟨trees, htrees, rfl⟩ := ih hrest
    exact ⟨tree :: trees, .cons htree htrees, rfl⟩

/-! ## Levels -/

/-- What is found before a node at one level of its chain, the nearest first: the siblings that
precede with all that is below them. -/
def levelBefore (s : Store) (p : Pointer) : Except PathError (List Pointer) := do
  let trees ← (← p.precedingSiblings s .standard).reverse.mapM fun q => do
    pure (← (← q.descendantsOrSelf s .standard).all).reverse
  pure trees.flatten

theorem preceding_eq (p : Pointer) : p.preceding s .standard = (do
    let levels ← (p :: p.ancestors).mapM (levelBefore s)
    pure levels.flatten) := rfl

section Acyclic

variable (hacyclic : s.Acyclic root.value) (hends : s.Resolves root.value)

include hacyclic hends

/-- The nodes found below a node are the rest of its preorder. -/
theorem exists_descendants_eq (hq : q.PointsInto s root.value) (h : InPreorder s [q] qs) :
    ∃ a below, qs = q :: below ∧ q.descendants s .standard = .ok a ∧ a.nodes = .ofList below := by
  obtain ⟨a, below, ha, hbelow, htree⟩ := descendants_inPreorder hacyclic hends hq
  exact ⟨a, below, h.unique htree, ha, hbelow⟩

/-- After a node there are at its level the trees of the siblings after it. -/
theorem level_of_inPreorder (hafter : p.followingSiblings s .standard = .ok ps)
    (hps : ∀ q ∈ ps, q.PointsInto s root.value) (h : InPreorder s ps qs) : level s p = .ok qs := by
  obtain ⟨trees, htrees, rfl⟩ := h.exists_trees
  have hmapM : ps.mapM (fun q => do pure (q :: (← (← q.descendants s .standard).all))) =
      Except.ok trees := by
    rw [Except.mapM_eq_ok_iff]
    refine ((List.forall₂_and_left ..).2 ⟨hps, htrees⟩).imp fun q tree ⟨hq, htree⟩ => ?_
    obtain ⟨a, below, rfl, ha, hbelow⟩ := exists_descendants_eq hacyclic hends hq htree
    rw [ha, Except.ok_bind, Search.all_eq_ok_iff.2 hbelow]
    rfl
  rw [level, hafter, Except.ok_bind, hmapM]
  rfl

/-- Before a node there are at its level the trees of the siblings before it, the nearest first. -/
theorem levelBefore_of_inPreorder (hbefore : p.precedingSiblings s .standard = .ok ps)
    (hps : ∀ q ∈ ps, q.PointsInto s root.value) (h : InPreorder s ps qs) :
    levelBefore s p = .ok qs.reverse := by
  obtain ⟨trees, htrees, rfl⟩ := h.exists_trees
  have hmapM : ps.reverse.mapM (fun q => do
      pure (← (← q.descendantsOrSelf s .standard).all).reverse) =
        Except.ok (trees.map List.reverse).reverse := by
    rw [Except.mapM_eq_ok_iff, List.forall₂_reverse_iff, List.forall₂_map_right_iff]
    refine ((List.forall₂_and_left ..).2 ⟨hps, htrees⟩).imp fun q tree ⟨hq, htree⟩ => ?_
    obtain ⟨a, below, rfl, ha, hbelow⟩ := exists_descendants_eq hacyclic hends hq htree
    have hall : Search.all (.found q fun _ => a) = .ok (q :: below) := by
      rw [Search.all_eq_ok_iff, Search.nodes_found, hbelow]
      rfl
    rw [descendantsOrSelf, ha]
    simp only [Except.ok_bind, Except.pure_eq_ok, hall]
  rw [levelBefore, hbefore, Except.ok_bind, hmapM, List.reverse_flatten]
  rfl

end Acyclic

/-! ## Where a node stands -/

/-- The document goes on from `pre` to a node with the nodes below it, and then to `post`: what
follows the node is `post`, and what precedes it is `pre` without the ancestors of the node. -/
structure Splits (s : Store) (doc : List Pointer) (p : Pointer) (pre down post : List Pointer) :
    Prop where
  eq : doc = pre ++ p :: (down ++ post)
  tree : InPreorder s [p] (p :: down)
  following : p.following s .standard = .ok post
  preceding : p.preceding s .standard = .ok (pre.filter (· ∉ p.ancestors)).reverse
  ancestors : p.ancestors ⊆ pre
  nodup : p.ancestors.Nodup

/-- The root of a document. -/
theorem splits_root (hr : r.parent? = none) (h : InPreorder s [r] (r :: down)) :
    Splits s (r :: down) r [] down [] where
  eq := by simp
  tree := h
  following := by
    rw [following_eq, ancestors_eq_nil hr, List.mapM_cons, level, followingSiblings_root hr]
    rfl
  preceding := by
    rw [preceding_eq, ancestors_eq_nil hr, List.mapM_cons, levelBefore, precedingSiblings, siblings,
      hr]
    rfl
  ancestors := by simp [ancestors_eq_nil hr]
  nodup := by simp [ancestors_eq_nil hr]

/-- From a node to one of its children, which stands between its siblings. -/
theorem Splits.child {xs below ys : List Pointer} (h : Splits s doc x pre down post)
    (hdoc : doc.Nodup) (hparent : p.parent? = some x) (hdown : down = xs ++ p :: (below ++ ys))
    (htree : InPreorder s [p] (p :: below)) (hlevel : level s p = .ok ys)
    (hlevelBefore : levelBefore s p = .ok xs.reverse) :
    Splits s doc p (pre ++ x :: xs) below (ys ++ post) := by
  have hancestors := ancestors_eq_cons hparent
  have heq : doc = pre ++ x :: (xs ++ p :: (below ++ (ys ++ post))) := by simp [h.eq, hdown]
  rw [heq] at hdoc
  obtain ⟨-, hnodup, hpre⟩ := List.nodup_append.1 hdoc
  have hx : ∀ q ∈ pre, q ≠ x := fun q hq => hpre q hq x (List.mem_cons_self ..)
  have hxs : ∀ q ∈ xs, q ∉ x :: x.ancestors := by
    intro q hq hmem
    rcases List.mem_cons.1 hmem with rfl | hmem
    · exact (List.nodup_cons.1 hnodup).1 (List.mem_append_left _ hq)
    · exact hpre q (h.ancestors hmem) q
        (List.mem_cons_of_mem _ (List.mem_append_left _ hq)) rfl
  constructor
  · simp [heq]
  · exact htree
  · rw [following_eq, hancestors]
    exact Except.flatten_mapM_cons hlevel h.following
  · have hkept : (pre ++ x :: xs).filter (· ∉ x :: x.ancestors) =
        pre.filter (· ∉ x.ancestors) ++ xs := by
      rw [List.filter_append, List.filter_cons_of_neg (by simp)]
      congr 1
      · exact List.filter_congr fun q hq => by simp [hx q hq]
      · exact List.filter_eq_self.2 fun q hq => by simpa using hxs q hq
    rw [preceding_eq, hancestors, hkept, List.reverse_append]
    exact Except.flatten_mapM_cons hlevelBefore h.preceding
  · rw [hancestors]
    exact List.cons_subset.2 ⟨by simp, fun q hq => List.mem_append_left _ (h.ancestors hq)⟩
  · rw [hancestors]
    exact List.nodup_cons.2 ⟨fun hmem => hx x (h.ancestors hmem) rfl, h.nodup⟩

/-! ## Documents -/

/-- In a flat graph a child is a slot of the object of the node above it. -/
theorem HasChild.exists_siblings (hflat : s.FlatLists root.value) (hx : IsAddressed s root x)
    (h : HasChild s x p) :
    IsAddressed s root p ∧ p.parent? = some x ∧ ∃ before after,
      x.children s .standard = .ok (before ++ p :: after) ∧
      p.siblings s .standard = .ok (before, after) := by
  obtain ⟨cs, hcs, hmem⟩ := h
  have hp := (kept_isAddressed s root).child hx hcs hmem
  obtain ⟨v, -, rfl⟩ := children_eq_of_flat hflat hx hcs
  obtain ⟨node, -, rfl⟩ := List.mem_map.1 hmem
  have hparent := x.parent?_child s.now node
  obtain ⟨h, before, after, hend, hnodes, hsiblings⟩ :=
    exists_siblings_eq hp (hp.isStop hflat) hparent
  refine ⟨hp, hparent, _, _, ?_, hsiblings⟩
  rw [children_of_holder hx.isPlain hend, hnodes, List.map_append, List.map_cons]
  rfl

/-- **Every node of a document splits it.** Induction from the root down. -/
theorem exists_splits (hacyclic : s.Acyclic root.value) (hends : s.Resolves root.value)
    (hflat : s.FlatLists root.value) (hr : r.nodes = [root.value.node none])
    (htree : InPreorder s [r] doc) (hdoc : doc.Nodup) (hp : ReflTransGen (HasChild s) r p) :
    IsAddressed s root p ∧ ∃ pre down post, Splits s doc p pre down post := by
  induction hp with
  | refl =>
    have hnone : r.parent? = none := by
      obtain ⟨visit, _ | ⟨v, above⟩, locale⟩ := r
      · rfl
      · simp [nodes, chain] at hr
    obtain ⟨cs, down, -, -, rfl⟩ := inPreorder_singleton_iff.1 htree
    exact ⟨⟨[], hr ▸ .root⟩, [], down, [], splits_root hnone htree⟩
  | @tail x p _ hchild ih =>
    obtain ⟨hx, pre, down, post, hsplits⟩ := ih
    obtain ⟨hp, hparent, before, after, hchildren, hsiblings⟩ := hchild.exists_siblings hflat hx
    obtain ⟨cs, below, hcs, hbelow, hdown⟩ := inPreorder_singleton_iff.1 hsplits.tree
    obtain rfl := Except.ok.inj (hchildren.symm.trans hcs)
    obtain rfl := (List.cons.inj hdown).2
    obtain ⟨xs, rest, rfl, hxs, hrest⟩ := inPreorder_append_iff.1 hbelow
    obtain ⟨tree, ys, rfl, htree, hys⟩ := inPreorder_append_iff.1 (List.singleton_append ▸ hrest)
    obtain ⟨_, below, _, _, rfl⟩ := inPreorder_singleton_iff.1 htree
    have hinto : ∀ q ∈ before ++ p :: after, q.PointsInto s root.value := fun q hq =>
      .of_isWithin ((kept_isAddressed s root).child hx hchildren hq).isWithin
    have hdown : xs ++ (p :: below ++ ys) = xs ++ p :: (below ++ ys) := rfl
    refine ⟨hp, _, _, _, hsplits.child hdoc hparent hdown htree ?_ ?_⟩
    · refine level_of_inPreorder hacyclic hends ?_ (fun q hq => hinto q (by simp [hq])) hys
      rw [followingSiblings, hsiblings]
      rfl
    · refine levelBefore_of_inPreorder hacyclic hends ?_ (fun q hq => hinto q (by simp [hq])) hxs
      rw [precedingSiblings, hsiblings]
      rfl

/-- No pointer comes before itself. -/
theorem compare_self_ne_lt (p : Pointer) : p.compare s p ≠ .ok .lt := by
  intro h
  rw [compare] at h
  split at h
  · have hswap := order_swap (s := s) p p
    rw [Except.ok.inj h] at hswap
    cases hswap
  · cases h

namespace Splits

variable (h : Splits s doc p pre down post) (hbefore : doc.Pairwise (Before s))

include h hbefore

/-- The nodes before a node come before it, and those behind it after it. -/
theorem before : (∀ q ∈ pre, Before s q p) ∧ ∀ q ∈ down ++ post, Before s p q := by
  rw [h.eq] at hbefore
  obtain ⟨-, hp, hpre⟩ := List.pairwise_append.1 hbefore
  exact ⟨fun q hq => hpre q hq p (List.mem_cons_self ..), (List.pairwise_cons.1 hp).1⟩

/-- **What follows a node** are the nodes after it that are not below it. -/
theorem post_eq :
    post = doc.filter fun q => p.compare s q = .ok .lt ∧ q ∉ down := by
  have hdoc : (pre ++ p :: (down ++ post)).Nodup := h.eq ▸ hbefore.imp Before.ne
  obtain ⟨hpre, hrest⟩ := h.before hbefore
  have hdisjoint := (List.nodup_append.1 (List.nodup_cons.1 (List.nodup_append.1 hdoc).2.1).2).2.2
  have hnone : pre.filter (fun q => p.compare s q = .ok .lt ∧ q ∉ down) = [] := by
    refine List.filter_eq_nil_iff.2 fun q hq => ?_
    simp [(hpre q hq).compare_swap]
  have hdown : down.filter (fun q => p.compare s q = .ok .lt ∧ q ∉ down) = [] :=
    List.filter_eq_nil_iff.2 fun q hq => by simp [hq]
  have hpost : post.filter (fun q => p.compare s q = .ok .lt ∧ q ∉ down) = post := by
    refine List.filter_eq_self.2 fun q hq => ?_
    have hlt := (hrest q (List.mem_append_right _ hq)).compare
    simpa [hlt] using fun hmem => hdisjoint q hmem q hq rfl
  rw [h.eq, List.filter_append, hnone,
    List.filter_cons_of_neg (by simp [compare_self_ne_lt]), List.filter_append, hdown, hpost]
  rfl

/-- **What precedes a node** are the nodes before it that are not above it. -/
theorem pre_filter_eq : pre.filter (· ∉ p.ancestors) =
    doc.filter fun q => q.compare s p = .ok .lt ∧ q ∉ p.ancestors := by
  obtain ⟨hpre, hrest⟩ := h.before hbefore
  have hnone : (down ++ post).filter (fun q => q.compare s p = .ok .lt ∧ q ∉ p.ancestors) = [] := by
    refine List.filter_eq_nil_iff.2 fun q hq => ?_
    simp [(hrest q hq).compare_swap]
  have hkept : pre.filter (fun q => q.compare s p = .ok .lt ∧ q ∉ p.ancestors) =
      pre.filter (· ∉ p.ancestors) :=
    List.filter_congr fun q hq => by simp [(hpre q hq).compare]
  rw [h.eq, List.filter_append, hkept, List.filter_cons_of_neg (by simp [compare_self_ne_lt]),
    hnone, List.append_nil]

/-- The node, what is above it and below it, what follows and what precedes it are the document. -/
theorem perm : ([p] ++ p.ancestors ++ down ++ post ++ (pre.filter (· ∉ p.ancestors)).reverse).Perm
    doc := by
  have hdoc : (pre ++ p :: (down ++ post)).Nodup := h.eq ▸ hbefore.imp Before.ne
  have hup : p.ancestors.Perm (pre.filter (· ∈ p.ancestors)) :=
    (List.perm_ext_iff_of_nodup h.nodup ((List.nodup_append.1 hdoc).1.filter _)).2 fun q => by
      simpa using fun hq => h.ancestors hq
  have hpre : (p.ancestors ++ pre.filter (· ∉ p.ancestors)).Perm pre := by
    refine (hup.append_right _).trans ?_
    simpa using List.filter_append_perm (· ∈ p.ancestors) pre
  rw [h.eq, List.perm_iff_count]
  intro q
  have hcount := hpre.count_eq q
  simp only [List.count_append, List.count_cons, List.count_nil, List.count_reverse] at hcount ⊢
  omega

end Splits

/-- The axis leads from the pointer to just these candidates, in this order. -/
def Yields (s : Store) (p : Pointer) (axis : Axis) (qs : List Pointer) : Prop :=
  ∃ a, p.along s .standard axis = .ok a ∧ a.nodes = .ofList qs

theorem yields_of_eq {axis : Axis} (h : p.along s .standard axis = .ok (.ofList qs)) :
    Yields s p axis qs := ⟨_, h, Search.nodes_ofList qs⟩

end Pointer

end PathQuery
