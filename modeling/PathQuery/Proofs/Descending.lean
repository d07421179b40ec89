import PathQuery.Proofs.ForwardWalks

/-!
# Two ways down

A double slash looks at the children of what is shown at or below a node, the descendant axis at
what is below it. Here is what each of them finds, as chains of nodes; they fail together.

* names: `Shown`, `OnTop`, `Pointer.IsTop`; `Environment.Starts`, `Environment.Passes`.
* `exists_shown_iff`: the children of what is shown below a container. `advance_iff`: what a step
  leads to where paths tell nodes apart. **`doubleSlash_iff`**, **`descendant_iff`**: what the two
  descents find.
-/

namespace PathQuery

open Relation (ReflTransGen TransGen)

/-! ## Failures of sequences -/

namespace Nodes

variable {a b : Nodes} {f g : Pointer → Nodes}

theorem failure_append_eq (a b : Nodes) : (a ++ b).failure = a.failure.or b.failure := by
  obtain ⟨as, _ | e⟩ := a <;> rfl

theorem failure_flatMap_congr (h : ∀ p ∈ a.items, (f p).failure = (g p).failure) :
    (a.flatMap f).failure = (a.flatMap g).failure := by
  obtain ⟨items, failure⟩ := a
  induction items with
  | nil => rfl
  | cons p items ih =>
    show (f p ++ flatMap ⟨items, failure⟩ f).failure = (g p ++ flatMap ⟨items, failure⟩ g).failure
    rw [failure_append_eq, failure_append_eq, h p (List.mem_cons_self ..),
      ih fun q hq => h q (List.mem_cons_of_mem _ hq)]

theorem failure_flatMap_of_forall (h : ∀ p ∈ a.items, (f p).failure = none) :
    (a.flatMap f).failure = a.failure := by
  obtain ⟨items, failure⟩ := a
  induction items with
  | nil => rfl
  | cons p items ih =>
    show (f p ++ flatMap ⟨items, failure⟩ f).failure = failure
    rw [failure_append_eq, h p (List.mem_cons_self ..), Option.none_or]
    exact ih fun q hq => h q (List.mem_cons_of_mem _ hq)

end Nodes

/-! ## Chains that tests look at -/

/-- The chain ends at a node that is no container. -/
def Shown : List Node → Prop
  | n :: _ => n.isContainer = false
  | [] => False

/-- The chain ends right below a container. -/
def OnTop : List Node → Prop
  | _ :: m :: _ => m.isContainer = true
  | _ => False

section Chains

variable {s t : Store} {x : Node} {ns ms ks : List Node} {holder : Holder}

theorem Store.SameGraph.passes (ht : s.SameGraph t) (p : Pointer) (test : NodeTest) :
    p.passes t test = p.passes s test := by
  have hnearest {α : Type} (own : Element → Option α) (ns : List Node) :
      Pointer.nearest t own ns = Pointer.nearest s own ns := by
    obtain ⟨_, _, rfl⟩ := ht
    induction ns with
    | nil => rfl
    | cons n ns ih =>
      cases n with
      | element foreign => exact congrArg (((s.element? foreign).bind own) <|> ·) ih
      | markupText => exact ih
      | _ => rfl
  have huri (q : String) : p.uri? t q = p.uri? s q := hnearest _ _
  have hdefault : p.defaultUri? t = p.defaultUri? s := hnearest _ _
  cases test <;> simp only [Pointer.passes, Pointer.sameNamespace, funext huri, hdefault]

theorem Store.HasChild.shown (h : s.HasChild ns ms) : Shown ms := by
  obtain ⟨m, ks, rfl, hslot, -⟩ := h.exists_slot
  cases m <;> first | rfl | cases hslot

theorem shown_of_transGen (h : TransGen s.HasChild ns ms) : Shown ms := by
  obtain ⟨ks, -, h⟩ := TransGen.tail'_iff.1 h
  exact h.shown

/-- Right below a container are the slots of the object in it. -/
theorem onTop_iff (hx : x.end? s = some holder.value) (hcontainer : x.isContainer = true)
    (hks : ReflTransGen s.HasChild [x] ks) (h : s.HasChild ks ms) : OnTop ms ↔ ¬Shown ks := by
  rcases Relation.reflTransGen_iff_eq_or_transGen.1 hks with rfl | hbelow
  · obtain ⟨node, -, rfl⟩ := (Store.hasChild_iff_of_holder hx).1 h
    simp [OnTop, Shown, hcontainer]
  · refine iff_of_false (fun htop => ?_) (not_not_intro (shown_of_transGen hbelow))
    obtain ⟨is, name, index, hchain⟩ := h.exists_childChain
    obtain ⟨holder, items, rfl, hitems⟩ := hchain.exists_append
    cases items with
    | nil =>
      have hshown := shown_of_transGen hbelow
      cases ks with
      | nil => exact hshown
      | cons k ks =>
        have htop : k.isContainer = true := htop
        rw [show k.isContainer = false from hshown] at htop
        cases htop
    | cons item items =>
      obtain ⟨l, label, i, rfl⟩ := hitems item (List.mem_cons_self ..)
      cases htop

/-- A child of a node below a container that is shown is any node below it but those on top. -/
theorem exists_shown_iff (hx : x.end? s = some holder.value) (hcontainer : x.isContainer = true) :
    (∃ ks, ReflTransGen s.HasChild [x] ks ∧ Shown ks ∧ s.HasChild ks ms) ↔
      TransGen s.HasChild [x] ms ∧ ¬OnTop ms := by
  rw [Relation.TransGen.tail'_iff]
  constructor
  · rintro ⟨ks, hks, hshown, h⟩
    exact ⟨⟨ks, hks, h⟩, fun htop => (onTop_iff hx hcontainer hks h).1 htop hshown⟩
  · rintro ⟨⟨ks, hks, h⟩, htop⟩
    exact ⟨ks, hks, not_not.1 fun hshown => htop ((onTop_iff hx hcontainer hks h).2 hshown), h⟩

end Chains

namespace Pointer

variable {s t : Store} {root : Value} {p q : Pointer} {test : NodeTest}

theorem passes_node_iff : p.passes s (.type .node) = true ↔ Shown p.nodes := by
  simp [passes, Shown, nodes_eq]

/-- The pointer points right below a container. -/
def IsTop (p : Pointer) : Prop := ∃ q, p.parent? = some q ∧ q.node.isContainer = true

theorem isTop_iff : p.IsTop ↔ OnTop p.nodes := by
  cases hparent : p.parent? with
  | none =>
    have habove := above_eq_nil_of_parent? hparent
    simp [IsTop, hparent, nodes_eq, habove, OnTop]
  | some q =>
    rw [nodes_parent? hparent, nodes_eq q]
    simp [IsTop, hparent, OnTop]

/-! ## Down from a node -/

/-- **What the axes down find**, which fail together. -/
theorem finds_down (hacyclic : s.Acyclic root) (hp : p.IsSingle s) (hwithin : IsWithin s root p) :
    let below := (Search.ofExcept (p.along s .standard .descendant)).nodes
    let whole := (Search.ofExcept (p.along s .standard .descendantOrSelf)).nodes
    s.Finds (TransGen s.HasChild p.nodes) below ∧
      s.Finds (ReflTransGen s.HasChild p.nodes) whole ∧ whole.failure = below.failure := by
  rw [along, along, descendantsOrSelf]
  cases h : p.descendants s .standard with
  | error e => exact ⟨Store.finds_fail e, Store.finds_fail e, rfl⟩
  | ok a =>
    obtain ⟨hbelow, hwhole⟩ := finds_descendants hacyclic hp (fun v => hwithin.reaches_end) h
    rw [← Search.nodes_found p fun _ => a] at hwhole
    exact ⟨hbelow, hwhole, by simp [Search.ofExcept, pure, Except.pure, bind, Except.bind]⟩

theorem exists_children_congr {cs : List Pointer} (ht : s.SameGraph t) (hp : p.IsSingle s)
    (h : p.children s .standard = .ok cs) : ∃ cs', p.children t .standard = .ok cs' := by
  have hchains := Store.toOption_chains (p := p) ht s.lists.size hp.1 (hp.congr ht).2
  rw [map_nodes_children hp h, ← ht.lists] at hchains
  rw [children]
  cases hc : p.childrenUpTo t .standard t.lists.size with
  | ok cs' => exact ⟨cs', rfl⟩
  | error e =>
    rw [hc] at hchains
    cases hchains

end Pointer

/-! ## Steps -/

namespace Environment

variable {s : Store} {env : Environment} {root : Value} {axis : Axis} {test : NodeTest}
variable {o : Occasion} {a : Search} {ps : List Pointer} {ms : List Node}

theorem nodes_candidates {r : Registry} (p : Pointer) :
    (candidates r s axis test p).nodes =
      (Search.ofExcept (p.along s r axis)).nodes.filter fun q => q.passes s test := by
  rw [candidates]
  cases p.along s r axis with
  | error e => rfl
  | ok a => exact Search.nodes_filter ..

theorem failure_advance_eq {f : Pointer → Search} (ha : a.nodes = .ofList ps) :
    (advance s axis f a).nodes.failure =
      ((Nodes.ofList ps).flatMap fun p => (f p).nodes).failure := by
  rw [nodes_advance_of_ofList ha]
  dsimp only
  split <;> rfl

/-- **What a step leads to**, if the paths that it compares tell nodes apart. -/
theorem advance_iff {f : Pointer → Search} (ha : a.nodes = .ofList ps)
    (hpaths : axis.overlaps = true → 2 ≤ ps.length → ∀ p ∈ ps, ∀ q ∈ (f p).nodes.items, ∀ p' ∈ ps,
      ∀ q' ∈ (f p').nodes.items, q.path s = q'.path s → q.nodes = q'.nodes)
    (h : (advance s axis f a).nodes.failure = none) :
    (∃ q ∈ (advance s axis f a).nodes.items, q.nodes = ms) ↔
      ∃ p ∈ ps, ∃ q ∈ (f p).nodes.items, q.nodes = ms := by
  have hfailure := (failure_advance_eq ha).symm.trans h
  obtain ⟨-, -, hitems⟩ := Nodes.flatMap_of_failure_eq_none hfailure
  rw [nodes_advance_of_ofList ha]
  dsimp only
  constructor
  · rintro ⟨q, hq, rfl⟩
    have hq : q ∈ ((Nodes.ofList ps).flatMap fun p => (f p).nodes).items := by
      split at hq
      · exact Pointer.mem_of_mem_uniqueFrom hq
      · exact hq
    obtain ⟨p, hp, hq⟩ := Nodes.mem_flatMap hq
    exact ⟨p, hp, q, hq, rfl⟩
  · rintro ⟨p, hp, q, hq, rfl⟩
    have hfound : q ∈ ((Nodes.ofList ps).flatMap fun p => (f p).nodes).items :=
      hitems ▸ List.mem_flatMap.2 ⟨p, hp, hq⟩
    split
    · next hmany =>
      obtain ⟨q', hq', hpath⟩ :=
        @Pointer.exists_mem_uniqueFrom _ _ _ ∅ hfound Std.TreeSet.contains_emptyc
      obtain ⟨p', hp', hq''⟩ := Nodes.mem_flatMap (Pointer.mem_of_mem_uniqueFrom hq')
      exact ⟨q', hq', hpaths hmany.1 hmany.2 p' hp' q' hq'' p hp q hq hpath⟩
    · exact ⟨q, hfound, rfl⟩

/-- A descent may start from these pointers: what they name can be reached, and the paths of the
nodes below them tell these apart if there are several pointers. -/
structure Starts (s : Store) (root : Value) (ps : List Pointer) : Prop where
  single : ∀ p ∈ ps, p.IsSingle s
  within : ∀ p ∈ ps, Pointer.IsWithin s root p
  paths : 2 ≤ ps.length → ∀ p ∈ ps, ∀ p' ∈ ps, ∀ q q' : Pointer,
    ReflTransGen s.HasChild p.nodes q.nodes → Shown q.nodes →
      ReflTransGen s.HasChild p'.nodes q'.nodes → Shown q'.nodes →
        q.path s = q'.path s → q.nodes = q'.nodes

/-- The test is passed by a pointer with this chain. -/
def Passes (s : Store) (test : NodeTest) (ms : List Node) : Prop :=
  ∃ q : Pointer, q.nodes = ms ∧ q.passes s test = true

theorem passes_iff {q : Pointer} : Passes s test q.nodes ↔ q.passes s test = true :=
  ⟨fun ⟨_, hx, h⟩ => (Pointer.passes_congr hx test).symm.trans h, fun h => ⟨q, rfl, h⟩⟩

theorem passes_node : Passes s (.type .node) ms ↔ Shown ms := by
  constructor
  · rintro ⟨q, rfl, h⟩
    exact Pointer.passes_node_iff.1 h
  · intro h
    cases ms with
    | nil => exact absurd h id
    | cons n ns =>
      let visit (n : Node) : Visit := { node := n, occasion := {} }
      have hnodes : (⟨visit n, ns.map visit, {}⟩ : Pointer).nodes = n :: ns := by
        simp [Pointer.nodes_eq, Pointer.node, visit, Function.comp_def]
      exact ⟨_, hnodes, Pointer.passes_node_iff.2 (hnodes ▸ h)⟩

theorem nodes_find_nil (p : Pointer) : (env.find .standard s o axis test [] p).nodes =
    (Search.ofExcept (p.along (s.on (o.part 0)) .standard axis)).nodes.filter
      fun q => q.passes (s.on (o.part 0)) test :=
  nodes_candidates p

section Descent

variable (hacyclic : s.Acyclic root) (hps : Starts s root ps) (ha : a.nodes = .ofList ps)

include hacyclic hps in
theorem Starts.finds_down {t : Store} (ht : s.SameGraph t) {p : Pointer} (hp : p ∈ ps) :
    let below := (Search.ofExcept (p.along t .standard .descendant)).nodes
    let whole := (Search.ofExcept (p.along t .standard .descendantOrSelf)).nodes
    t.Finds (TransGen s.HasChild p.nodes) below ∧
      t.Finds (ReflTransGen s.HasChild p.nodes) whole ∧ whole.failure = below.failure := by
  have hfinds := Pointer.finds_down (hacyclic.congr ht) ((hps.single p hp).congr ht)
    ((hps.within p hp).congr ht)
  rwa [ht.hasChild] at hfinds

include hps ha in
/-- The first step of a descent leads to what its axis finds and its test passes. -/
theorem firstStep_iff {r : Pointer → List Node → Prop}
    (hfinds : ∀ p ∈ ps, (s.on (o.part 0)).Finds (r p)
      (Search.ofExcept (p.along (s.on (o.part 0)) .standard axis)).nodes)
    (hshown : ∀ p ∈ ps, ∀ q : Pointer, r p q.nodes → q.passes s test = true →
      ReflTransGen s.HasChild p.nodes q.nodes ∧ Shown q.nodes)
    (h : (advance s axis (env.find .standard s o axis test []) a).nodes.failure = none) :
    (∃ q ∈ (advance s axis (env.find .standard s o axis test []) a).nodes.items, q.nodes = ms) ↔
      (∃ p ∈ ps, r p ms) ∧ Passes s test ms := by
  have hgraph := Store.SameGraph.on s (o.part 0)
  have hfailure := (failure_advance_eq ha).symm.trans h
  obtain ⟨-, hnone, -⟩ := Nodes.flatMap_of_failure_eq_none hfailure
  have hfound {p : Pointer} (hp : p ∈ ps) (ms : List Node) :
      (∃ q ∈ (env.find .standard s o axis test [] p).nodes.items, q.nodes = ms) ↔
        r p ms ∧ Passes s test ms := by
    have hnone : (env.find .standard s o axis test [] p).nodes.failure = none := hnone p hp
    rw [nodes_find_nil] at hnone ⊢
    rw [← (hfinds p hp).found hnone]
    constructor
    · rintro ⟨q, hq, rfl⟩
      obtain ⟨hq, hpasses⟩ := List.mem_filter.1 hq
      exact ⟨⟨q, hq, rfl⟩, q, rfl, (hgraph.passes q test).symm.trans hpasses⟩
    · rintro ⟨⟨q, hq, rfl⟩, hpasses⟩
      exact ⟨q, List.mem_filter.2 ⟨hq, (hgraph.passes q test).trans (passes_iff.1 hpasses)⟩, rfl⟩
  have hbelow (p : Pointer) (hp : p ∈ ps) (q : Pointer)
      (hq : q ∈ (env.find .standard s o axis test [] p).nodes.items) :
      ReflTransGen s.HasChild p.nodes q.nodes ∧ Shown q.nodes := by
    obtain ⟨hr, hpasses⟩ := (hfound hp q.nodes).1 ⟨q, hq, rfl⟩
    exact hshown p hp q hr (passes_iff.1 hpasses)
  rw [advance_iff ha (fun _ hmany p hp q hq p' hp' q' hq' => hps.paths hmany p hp p' hp' q q'
    (hbelow p hp q hq).1 (hbelow p hp q hq).2 (hbelow p' hp' q' hq').1 (hbelow p' hp' q' hq').2) h]
  constructor
  · rintro ⟨p, hp, hq⟩
    obtain ⟨hr, hpasses⟩ := (hfound hp ms).1 hq
    exact ⟨⟨p, hp, hr⟩, hpasses⟩
  · rintro ⟨⟨p, hp, hr⟩, hpasses⟩
    exact ⟨p, hp, (hfound hp ms).2 ⟨hr, hpasses⟩⟩

include hacyclic hps ha

variable (env) in
/-- **What the descendant axis finds.** -/
theorem descendant_iff
    (h : (env.walk .standard [.mk .descendant test []] o s a).nodes.failure = none) :
    (∃ q ∈ (env.walk .standard [.mk .descendant test []] o s a).nodes.items, q.nodes = ms) ↔
      (∃ p ∈ ps, TransGen s.HasChild p.nodes ms) ∧ Passes s test ms := by
  rw [walk_cons, walk] at h ⊢
  exact firstStep_iff hps ha
    (fun p hp => (hps.finds_down hacyclic (.on s (o.part 0)) hp).1)
    (fun p hp q hq _ => ⟨hq.to_reflTransGen, shown_of_transGen hq⟩) h

variable (env) in
/-- What a double slash finds in between. -/
theorem descendants_iff
    (h : (env.walk .standard [.descendants] o s a).nodes.failure = none) :
    (∃ q ∈ (env.walk .standard [.descendants] o s a).nodes.items, q.nodes = ms) ↔
      (∃ p ∈ ps, ReflTransGen s.HasChild p.nodes ms) ∧ Shown ms := by
  rw [Step.descendants, walk_cons, walk] at h ⊢
  rw [← passes_node (s := s)]
  exact firstStep_iff hps ha (fun p hp => (hps.finds_down hacyclic (.on s (o.part 0)) hp).2.1)
    (fun p hp q hq hpasses => ⟨hq, Pointer.passes_node_iff.1 hpasses⟩) h

/-- All that a double slash finds in between has children, if few. -/
theorem exists_children_descendants {q : Pointer}
    (hq : q ∈ (env.walk .standard [.descendants] o s a).nodes.items) :
    q.IsSingle s ∧ ∃ cs, q.children s .standard = .ok cs := by
  have hgraph := Store.SameGraph.on s (o.part 0)
  rw [Step.descendants, walk_cons, walk] at hq
  obtain ⟨p, hp, hq⟩ := mem_advance hq
  rw [ha] at hp
  rw [nodes_find_nil] at hq
  obtain ⟨hsingle, cs, hcs⟩ :=
    (hps.finds_down hacyclic hgraph hp).2.1.children (List.mem_filter.1 hq).1
  exact ⟨hsingle.congr hgraph.symm, Pointer.exists_children_congr hgraph.symm hsingle hcs⟩

omit hacyclic hps ha in
/-- A child step finds the children that pass its test. -/
theorem childStep_iff {q : Pointer} {cs : List Pointer} (hq : q.IsSingle s)
    (hcs : q.children s .standard = .ok cs) :
    (env.find .standard s o .child test [] q).nodes.failure = none ∧
      ((∃ c ∈ (env.find .standard s o .child test [] q).nodes.items, c.nodes = ms) ↔
        s.HasChild q.nodes ms ∧ Passes s test ms) := by
  have hgraph := Store.SameGraph.on s (o.part 0)
  obtain ⟨cs', hcs'⟩ := Pointer.exists_children_congr hgraph hq hcs
  have hfound : (env.find .standard s o .child test [] q).nodes =
      .ofList (cs'.filter fun c => c.passes (s.on (o.part 0)) test) := by
    rw [nodes_find_nil, Pointer.along, hcs']
    show (Search.ofList cs').nodes.filter _ = _
    rw [Search.nodes_ofList]
    rfl
  rw [hfound, ← hgraph.hasChild, Pointer.hasChild_iff (hq.congr hgraph) hcs']
  refine ⟨rfl, ?_⟩
  simp only [Nodes.items_ofList, List.mem_filter, hgraph.passes]
  constructor
  · rintro ⟨c, ⟨hc, hpasses⟩, rfl⟩
    exact ⟨⟨c, hc, rfl⟩, passes_iff.2 hpasses⟩
  · rintro ⟨⟨c, hc, rfl⟩, hpasses⟩
    exact ⟨c, ⟨hc, passes_iff.1 hpasses⟩, rfl⟩

omit hacyclic hps ha in
theorem walk_doubleSlash : env.walk .standard [.descendants, .mk .child test []] o s a =
    advance s .child (env.find .standard s (o.part 1) .child test [])
      (env.walk .standard [.descendants] o s a) := by
  rw [Step.descendants, walk_cons, walk_cons, walk, walk_cons, walk]

variable (env test) in
/-- The child step behind a double slash does not fail. -/
theorem failure_doubleSlash :
    (env.walk .standard [.descendants, .mk .child test []] o s a).nodes.failure =
      (env.walk .standard [.descendants] o s a).nodes.failure := by
  rw [walk_doubleSlash]
  show (Search.gather _ _).nodes.failure = _
  rw [Search.nodes_gather]
  refine Nodes.failure_flatMap_of_forall fun q hq => ?_
  obtain ⟨hsingle, cs, hcs⟩ := exists_children_descendants hacyclic hps ha hq
  exact (@childStep_iff s env test (o.part 1) [] q cs hsingle hcs).1

variable (env test) in
/-- **The two descents fail together.** -/
theorem failure_descents :
    (env.walk .standard [.descendants, .mk .child test []] o s a).nodes.failure =
      (env.walk .standard [.mk .descendant test []] o s a).nodes.failure := by
  rw [failure_doubleSlash env test hacyclic hps ha, Step.descendants, walk_cons, walk, walk_cons,
    walk, failure_advance_eq ha, failure_advance_eq ha]
  refine Nodes.failure_flatMap_congr fun p hp => ?_
  rw [nodes_find_nil, nodes_find_nil]
  exact (hps.finds_down hacyclic (.on s (o.part 0)) hp).2.2

variable (env) in
/-- **What a double slash finds**: the children of what is shown at or below the start. -/
theorem doubleSlash_iff
    (h : (env.walk .standard [.descendants, .mk .child test []] o s a).nodes.failure = none) :
    (∃ q ∈ (env.walk .standard [.descendants, .mk .child test []] o s a).nodes.items,
        q.nodes = ms) ↔
      (∃ p ∈ ps, ∃ ks, ReflTransGen s.HasChild p.nodes ks ∧ Shown ks ∧ s.HasChild ks ms) ∧
        Passes s test ms := by
  have hfailure := (failure_doubleSlash env test hacyclic hps ha).symm.trans h
  have hbetween (ks : List Node) :
      _ ↔ (∃ p ∈ ps, ReflTransGen s.HasChild p.nodes ks) ∧ Shown ks :=
    descendants_iff env hacyclic hps ha hfailure
  have hchildren {q : Pointer} (hq : q ∈ (env.walk .standard [.descendants] o s a).nodes.items) :
      (∃ c ∈ (env.find .standard s (o.part 1) .child test [] q).nodes.items, c.nodes = ms) ↔
        s.HasChild q.nodes ms ∧ Passes s test ms := by
    obtain ⟨hsingle, cs, hcs⟩ := exists_children_descendants hacyclic hps ha hq
    exact (childStep_iff hsingle hcs).2
  rw [walk_doubleSlash] at h ⊢
  rw [advance_iff (Nodes.eq_ofList hfailure) (fun hoverlaps => by cases hoverlaps) h]
  constructor
  · rintro ⟨q, hq, hms⟩
    obtain ⟨hchild, hpasses⟩ := (hchildren hq).1 hms
    obtain ⟨⟨p, hp, hks⟩, hshown⟩ := (hbetween q.nodes).1 ⟨q, hq, rfl⟩
    exact ⟨⟨p, hp, q.nodes, hks, hshown, hchild⟩, hpasses⟩
  · rintro ⟨⟨p, hp, ks, hks, hshown, hchild⟩, hpasses⟩
    obtain ⟨q, hq, rfl⟩ := (hbetween ks).2 ⟨⟨p, hp, hks⟩, hshown⟩
    exact ⟨q, hq, (hchildren hq).2 ⟨hchild, hpasses⟩⟩

omit hacyclic in
/-- Where every value has an end no descent fails. -/
theorem failure_descendant (hends : s.Resolves root) :
    (env.walk .standard [.mk .descendant test []] o s a).nodes.failure = none := by
  have hgraph := Store.SameGraph.on s (o.part 0)
  rw [walk_cons, walk, failure_advance_eq ha]
  refine Nodes.failure_flatMap rfl fun p hp => ?_
  obtain ⟨b, hb, hfailure⟩ :=
    Pointer.exists_descendants (hends.congr hgraph) ((hps.within p hp).congr hgraph)
  rw [nodes_find_nil, Pointer.along, hb]
  exact hfailure

end Descent

end Environment

end PathQuery
