import PathQuery.Proofs.ChildChains
import PathQuery.Proofs.Positions
import PathQuery.Proofs.Resolving
import PathQuery.Proofs.Selections

/-!
# Printed paths as addresses

The path of a pointer is read as the way to its node, except that the number of an item in a list
that is itself an item is read as one more choice among what the numbers before it left.

* names: `Node.isFirstItem`, `Pointer.Listed`, `Environment.Leads`.
* **`Listed.leads`**: a walk along a printed path finds its node first if all such items are first
  ones. **`getPointer_path_iff`**: it finds it in no other case.
-/

namespace PathQuery

/-! ## Numbers of items in items -/

/-- **The numbers behind the first of a step are those of items of lists that are items.** -/
theorem Addressed.isFirstItem_iff {s : Store} {root : Holder} {ns : List Node}
    {gs : List Segment} (h : Addressed s root ns gs) :
    (∀ n ∈ ns, n.isFirstItem = true) ↔ ∀ g ∈ gs, ∀ n ∈ g.places.tail, n = 1 := by
  induction h with
  | root => simpa using by cases root <;> rfl
  | @slot n ns gs h name v index _ _ _ _ ih =>
    have htail : index.places.tail = [] := by cases index <;> rfl
    rw [List.forall_mem_cons, ih, List.forall_mem_append]
    simp [Node.isFirstItem, htail]
  | @item n ns gs name places l i label hn hend _ ih =>
    obtain ⟨place, places, rfl⟩ := List.exists_cons_of_ne_nil (hn.places_ne_nil hend)
    rw [List.forall_mem_cons, ih, List.forall_mem_append, List.forall_mem_append]
    simp [Node.isFirstItem, or_imp, forall_and]
    tauto

/-- The numbers of an address are those of items that exist. -/
theorem Addressed.places_bounds {s : Store} {root : Holder} {ns : List Node} {gs : List Segment}
    (hshort : s.ShortLists root.value)
    (h : Addressed s root ns gs) : ∀ g ∈ gs, ∀ n ∈ g.places, 0 < n ∧ n < 2 ^ 53 := by
  induction h with
  | root => simp
  | @slot n ns gs h name v index hn hend hentry hnode ih =>
    rw [List.forall_mem_append]
    refine ⟨ih, ?_⟩
    rw [Store.mem_slotNodes_iff] at hnode
    split at hnode
    · subst hnode
      simp [Index.places]
    · next items hitems =>
      obtain ⟨i, hi, rfl⟩ := hnode
      obtain ⟨l, hl, rfl⟩ := Store.items?_eq_some_iff.1 hitems
      have hlength := hshort l (hl ▸ ((hn.reaches hend).slot hentry).unwrap)
      simp only [List.mem_singleton, Index.places, forall_eq]
      omega
  | @item n ns gs name places l i label hn hend hi ih =>
    rw [List.forall_mem_append] at ih ⊢
    refine ⟨ih.1, ?_⟩
    have hlength := hshort l (hn.reaches hend)
    simp only [List.mem_singleton, forall_eq, List.mem_append] at ih ⊢
    rintro n (hn | rfl)
    · exact ih.2 n hn
    · omega

/-! ## One step -/

namespace Environment

variable {env : Environment} {s : Store} {o : Occasion} {a : Search}

theorem walk_append (env : Environment) (s : Store) (xs ys : List Step) (o : Occasion)
    (a : Search) :
    ∃ o', env.walk .standard (xs ++ ys) o s a =
      env.walk .standard ys o' s (env.walk .standard xs o s a) := by
  induction xs generalizing o a with
  | nil => exact ⟨o, by rw [List.nil_append, walk]⟩
  | cons step xs ih =>
    obtain ⟨axis, test, predicates⟩ := step
    simp only [List.cons_append, walk]
    exact ih _ _

/-- The first of what is found from several pointers is found from the first of them. -/
theorem head?_gather {f : Pointer → Search} {x y : Pointer} (ha : a.nodes.items.head? = some x)
    (hf : (f x).nodes.items.head? = some y) : (a.gather f).nodes.items.head? = some y := by
  rw [Search.nodes_gather]
  exact Nodes.head?_flatMap ha hf

theorem nodes_gather_eq_nil {f : Pointer → Search} (hf : ∀ x, (f x).nodes.items = []) :
    (a.gather f).nodes.items = [] := by
  refine List.eq_nil_iff_forall_not_mem.2 fun q hq => ?_
  rw [Search.nodes_gather] at hq
  obtain ⟨p, -, hq⟩ := Nodes.mem_flatMap hq
  simp [hf] at hq

/-- What a step with numbers finds from a pointer. -/
def findNamed (env : Environment) (s : Store) (o : Occasion) (g : Segment) : Pointer → Search :=
  env.find .standard s o .child (.name (.bare g.name))
    (g.places.map fun n => .number (Number.ofNat n))

theorem walk_segment (g : Segment) (steps : List Step) (o : Occasion) (a : Search) :
    env.walk .standard (g.step :: steps) o s a =
      env.walk .standard steps (o.part 1) s (a.gather (env.findNamed s o g)) :=
  walk_cons ..

/-- A step with numbers picks among the children of its name. -/
theorem nodes_findNamed {g : Segment} (hg : ∀ n ∈ g.places, 0 < n ∧ n < 2 ^ 53) {p : Pointer}
    {cs : List Pointer} (hcs : p.children (s.on (o.part 0)) .standard = .ok cs) :
    (env.findNamed s o g p).nodes = .ofList (pick
      (cs.filter fun q => q.passes (s.on (o.part 0)) (.name (.bare g.name))) g.places) :=
  nodes_find (by rw [Pointer.along, hcs]; rfl) (narrow_numbers hg)

/-- A step whose numbers behind the first are not all one finds nothing. -/
theorem nodes_findNamed_eq_nil {g : Segment} (hg : ∀ n ∈ g.places, 0 < n ∧ n < 2 ^ 53)
    {n : Nat} (hn : n ∈ g.places.tail) (hone : n ≠ 1) (p : Pointer) :
    (env.findNamed s o g p).nodes.items = [] := by
  cases hcs : p.children (s.on (o.part 0)) .standard with
  | error e =>
    rw [findNamed, find_of_error (by rw [Pointer.along, hcs]; rfl)]
    rfl
  | ok cs =>
    obtain ⟨place, places, hplaces⟩ := List.exists_cons_of_ne_nil (l := g.places) (by
      intro h
      simp [h] at hn)
    rw [hplaces, List.tail_cons] at hn
    have hpos := (hg n (hplaces ▸ List.mem_cons_of_mem _ hn)).1
    rw [nodes_findNamed hg hcs, hplaces, pick_eq_nil hn ⟨hpos, hone⟩]
    rfl

end Environment

/-! ## Walks along printed paths -/

namespace Environment

variable {env : Environment} {s : Store} {root : Holder} {ns ms : List Node} {gs : List Segment}

/-- A walk from the root along these steps finds a pointer at this chain first. -/
def Leads (env : Environment) (s : Store) (root : Holder) (gs : List Segment) (ns : List Node) :
    Prop :=
  ∀ o a x, a.nodes.items.head? = some x → x.nodes = [root.value.node none] →
    ∃ y, (env.walk .standard (gs.map Segment.step) o s a).nodes.items.head? = some y ∧ y.nodes = ns

theorem Leads.append (h : env.Leads s root gs ns) {g : Segment}
    (hg : ∀ o x, x.nodes = ns →
      ∃ y, (env.findNamed s o g x).nodes.items.head? = some y ∧ y.nodes = ms) :
    env.Leads s root (gs ++ [g]) ms := by
  intro o a x hx hxn
  obtain ⟨y, hy, hyn⟩ := h o a x hx hxn
  obtain ⟨o', hwalk⟩ := walk_append env s (gs.map Segment.step) [g.step] o a
  rw [List.map_append, List.map_cons, List.map_nil, hwalk, walk_segment, walk]
  obtain ⟨z, hz, hzn⟩ := hg o' y hyn
  exact ⟨z, head?_gather hy hz, hzn⟩

end Environment

namespace Pointer

variable {env : Environment} {s t : Store} {root : Holder} {p q : Pointer}

theorem passes_eq_isNamed {h : Holder} {name slot : String} {index : Index} {above : List Node}
    (hp : p.nodes = .slot h (.bare slot) index false :: above) (hname : Grammar.IsName name) :
    p.passes t (.name (.bare name)) = isNamed name p.nodes := by
  rw [passes_name (by rw [nodes_eq] at hp; exact (List.cons.inj hp).1)
    (QName.isWildcard_bare hname), hp, Bool.eq_iff_iff]
  simp [isNamed, QName.bare]

/-- The first of what the numbers of a child's step pick. -/
theorem head?_pick {css : List (List Node)} {ms : List Node} {index : Index} {k : Nat}
    (hplace : css[index.offset]? = some ms) (hindex : ∀ n ∈ index.places, 0 < n)
    (hk : k ≠ 0 → index ≠ .whole) :
    (pick css (index.places ++ List.replicate k 1)).head? = some ms := by
  cases index with
  | whole =>
    obtain rfl : k = 0 := by simpa using hk
    rw [Index.offset] at hplace
    rw [List.head?_eq_getElem?]
    exact hplace
  | element i =>
    have hpos : 0 < (i + 1).toNat := hindex _ (List.mem_singleton_self _)
    have hoffset : (i + 1).toNat - 1 = i.toNat := by omega
    rw [Index.places, List.singleton_append, pick_ones, hoffset]
    rw [Index.offset] at hplace
    rw [hplace]
    rfl

/-- A pointer found from the root by taking children of children. -/
inductive Listed (s : Store) (root : Holder) : Pointer → Prop
  | root {p : Pointer} (hp : p.nodes = [root.value.node none]) : Listed s root p
  | child {p q : Pointer} {t : Store} {qs : List Pointer} (hp : Listed s root p)
    (ht : s.SameGraph t) (h : p.children t .standard = .ok qs) (hq : q ∈ qs) : Listed s root q

theorem chains_of_children (ht : s.SameGraph t) (hp : IsAddressed s root p) {qs : List Pointer}
    (h : p.children t .standard = .ok qs) :
    s.chainsUpTo s.lists.size p.nodes = some (qs.map nodes) := by
  have hwhole : p.isWholeCollection t = false := by
    rw [isAddressed_congr ht] at hp
    exact hp.not_isWholeCollection
  rw [← Store.toOption_chains ht _ hp.isPlain hwhole, ← ht.lists]
  rw [children] at h
  rw [h]
  rfl

theorem children_of_chains (ht : s.SameGraph t) (hp : IsAddressed s root p)
    {css : List (List Node)} (h : s.chainsUpTo s.lists.size p.nodes = some css) :
    ∃ qs, p.children t .standard = .ok qs ∧ qs.map nodes = css := by
  have hwhole : p.isWholeCollection t = false := by
    rw [isAddressed_congr ht] at hp
    exact hp.not_isWholeCollection
  rw [← Store.toOption_chains ht _ hp.isPlain hwhole, ← ht.lists] at h
  rw [children]
  cases hqs : p.childrenUpTo t .standard t.lists.size with
  | error e => simp [hqs, Except.toOption] at h
  | ok qs => exact ⟨qs, rfl, by simpa [hqs, Except.toOption] using h⟩

/-- **A walk along a printed path finds a child first** if it finds the parent first and only first
items lie between the two. -/
theorem Listed.leads (env : Environment) (hnames : s.NamesReached root.value)
    (hshort : s.ShortLists root.value)
    (h : Listed s root p) :
    ∃ gs, Addressed s root p.nodes gs ∧ ((∀ n ∈ p.nodes, n.isFirstItem = true) →
      ∀ k, (k ≠ 0 → ∃ l, p.node.end? s = some (.list l)) →
        env.Leads s root (Segment.deepen gs (List.replicate k 1)) p.nodes) := by
  induction h with
  | @root p hp =>
    refine ⟨[], hp ▸ .root, fun _ k _ o a x hx hxn => ⟨x, ?_, hxn.trans hp.symm⟩⟩
    rw [show Segment.deepen [] (List.replicate k 1) = [] from rfl, List.map_nil,
      Environment.walk]
    exact hx
  | @child p q t qs _ ht hqs hq ih =>
    obtain ⟨gs, hp, hleads⟩ := ih
    have hcss := chains_of_children ht ⟨gs, hp⟩ hqs
    obtain ⟨is, name, index, hchain, hplace⟩ :=
      Store.placed_of_mem hcss (List.mem_map_of_mem hq)
    have hqa := hchain.addressed hp
    refine ⟨_, hqa, fun hfirst k hk => ?_⟩
    obtain ⟨his, hpfirst⟩ := hchain.isFirstItem hfirst
    have hones : is.map (· + 1) = List.replicate is.length 1 := by
      rw [List.eq_replicate_iff]
      simpa using his
    rw [Segment.deepen_append, hones]
    refine Environment.Leads.append (hleads hpfirst is.length fun h => ?_) fun o x hx => ?_
    · obtain ⟨n, hn, l, hl⟩ := hchain.end?_of_ne_nil (mt List.length_eq_zero_iff.2 h)
      rw [nodes_eq] at hn
      exact ⟨l, Option.some.inj hn ▸ hl⟩
    · -- The children of `x` have the chains of the children of `p`.
      obtain ⟨cs, hcs, hcss'⟩ := children_of_chains (p := x) (Store.SameGraph.on s (o.part 0))
        ⟨gs, hx ▸ hp⟩ (hx ▸ hcss)
      have hbounds := hqa.places_bounds hshort
      have hname := hqa.isName hnames
      rw [List.forall_mem_append, List.forall_mem_singleton] at hbounds hname
      have hpasses : ∀ c ∈ cs, c.passes (s.on (o.part 0)) (.name (.bare name)) =
          isNamed name c.nodes := by
        intro c hc
        obtain ⟨_, _, _, hchain, -⟩ :=
          Store.placed_of_mem hcss (hcss' ▸ List.mem_map_of_mem hc)
        obtain ⟨_, _, hcn⟩ := hchain.head_eq
        exact passes_eq_isNamed hcn hname.2
      have hnumbers : ∀ n ∈ index.places ++ List.replicate k 1, 0 < n ∧ n < 2 ^ 53 := by
        simp only [List.mem_append, List.mem_replicate]
        rintro n (hn | ⟨-, rfl⟩)
        · exact hbounds.2 n hn
        · decide
      have hindex : k ≠ 0 → index ≠ .whole := by
        rintro hk₀ rfl
        obtain ⟨l, hl⟩ := hk hk₀
        rw [nodes_eq] at hqa
        exact hqa.places_ne_nil hl rfl
      have hpicked := head?_pick (hplace his) (fun n hn => (hbounds.2 n hn).1) hindex
      rw [Environment.nodes_findNamed (g := ⟨name, index.places ++ List.replicate k 1⟩) hnumbers
        hcs, List.filter_congr hpasses]
      rw [← hcss', List.filter_map, ← map_pick, List.head?_map, Option.map_eq_some_iff] at hpicked
      exact hpicked

theorem Listed.congr (ht : s.SameGraph t) (h : Listed s root p) : Listed t root p := by
  induction h with
  | root hp => exact .root hp
  | child _ hu hqs hq ih => exact .child ih (ht.symm.trans hu) hqs hq

end Pointer

/-! ## Single pointers -/

namespace CompiledPath

variable {ctx : Context} {c : CompiledPath} {s : Store} {root : Holder} {gs : List Segment}

theorem simplePath?_eq_none {g : Segment} (hg : g ∈ gs) (hplaces : ¬ g.IsSimple) :
    simplePath? .root (gs.map Segment.step) = none := by
  have hstep : g.step.simple? = none := by
    have hlength : ¬ g.places.length ≤ 1 := hplaces
    simp [Segment.step, Step.simple?, Step.isSimple, hlength]
  rw [simplePath?, Option.map_eq_none_iff]
  induction gs with
  | nil => simp at hg
  | cons g' gs ih =>
    rw [List.map_cons, List.mapM_cons]
    rcases List.mem_cons.1 hg with rfl | hg
    · rw [hstep]
      rfl
    · rw [ih hg]
      cases g'.step.simple? <;> rfl

/-- A walk over a step whose numbers behind the first are not all one finds nothing. -/
theorem walk_eq_nil (env : Environment) (s : Store) {g : Segment} {n : Nat} (hg : g ∈ gs)
    (hbounds : ∀ g ∈ gs, ∀ n ∈ g.places, 0 < n ∧ n < 2 ^ 53) (hn : n ∈ g.places.tail)
    (hone : n ≠ 1) (o : Occasion) (a : Search) :
    (env.walk .standard (gs.map Segment.step) o s a).nodes.items = [] := by
  have hnothing (gs : List Segment) (o : Occasion) {a : Search} (ha : a.nodes.items = []) :
      (env.walk .standard (gs.map Segment.step) o s a).nodes.items = [] := by
    induction gs generalizing o a with
    | nil =>
      rw [List.map_nil, Environment.walk]
      exact ha
    | cons g gs ih =>
      rw [List.map_cons, Environment.walk_segment]
      refine ih _ (List.eq_nil_iff_forall_not_mem.2 fun q hq => ?_)
      rw [Search.nodes_gather] at hq
      obtain ⟨p, hp, -⟩ := Nodes.mem_flatMap hq
      simp [ha] at hp
  induction gs generalizing o a with
  | nil => simp at hg
  | cons g' gs ih =>
    rw [List.map_cons, Environment.walk_segment]
    rcases List.mem_cons.1 hg with rfl | hg
    · exact hnothing gs _ (Environment.nodes_gather_eq_nil
        (Environment.nodes_findNamed_eq_nil (hbounds _ (List.mem_cons_self ..)) hn hone))
    · exact ih hg (fun g hg => hbounds g (List.mem_cons_of_mem _ hg)) _ _

/-- A path that is not simple gives the first node of a walk from the root. -/
theorem result_single (ctx : Context) (s : Store)
    (hc : c.expr.value = .path .root (gs.map Segment.step))
    (hsimple : simplePath? .root (gs.map Segment.step) = none) :
    ∃ o, (c.single ctx .standard).result s = (Environment.firstOf (.nodes
      (ctx.env.walk .standard (gs.map Segment.step) o s (.ofList [ctx.env.root]))), s) := by
  refine ⟨(s.now.part 0).part 1, ?_⟩
  rw [single, Environment.single, hc]
  simp [hsimple, Environment.begin, Environment.compute, Environment.startNodes, Action.result_bind]

/-- The first of a walk. -/
theorem firstOf_walk {a : Search} :
    Environment.firstOf (.nodes a) = match a.nodes.items.head?, a.nodes.failure with
      | some p, _ => .ok (.pointer p)
      | none, some e => .error e
      | none, none => .ok .empty := by
  rw [Environment.firstOf, Search.first_eq, Nodes.first]
  obtain ⟨_ | ⟨p, ps⟩, _ | e⟩ := a.nodes <;> rfl

/-- **A printed path leads back to its node exactly if all items in items on the way to it are
first ones**; in a strict context it leads nowhere else. -/
theorem getPointer_listed {p : Pointer} (hctx : ctx.StartsAt root)
    (hstrict : ctx.env.lenient = false) (hnames : s.NamesReached root.value)
    (hshort : s.ShortLists root.value)
    (hp : Pointer.Listed s root p)
    (hc : Grammar.parse (p.path s) = .ok c.expr.value) :
    if ∀ n ∈ p.nodes, n.isFirstItem = true then
      ∃ q, (c.getPointer ctx .standard).result s = (.ok q, s) ∧ q.nodes = p.nodes
    else ∃ e, (c.getPointer ctx .standard).result s = (.error e, s) := by
  obtain ⟨gs, hgs, hleads⟩ := hp.leads ctx.env hnames hshort
  have hname := hgs.isName hnames
  have hbounds := hgs.places_bounds hshort
  rw [hgs.parse_path hname] at hc
  have hc := (Except.ok.inj hc).symm
  split
  · next hfirst =>
    by_cases hsimple : ∀ g ∈ gs, g.IsSimple
    · exact c.getPointer_address hctx hc hgs hname hsimple fun g hg n hn =>
        (hbounds g hg n hn).2.le
    · simp only [not_forall] at hsimple
      obtain ⟨g, hg, hplaces⟩ := hsimple
      obtain ⟨o, hsingle⟩ := c.result_single ctx s hc
        (simplePath?_eq_none hg hplaces)
      have hwalk := hleads hfirst 0 (by simp)
      rw [List.replicate_zero, Segment.deepen_nil_right] at hwalk
      obtain ⟨y, hy, hyn⟩ := hwalk o (.ofList [ctx.env.root]) ctx.env.root (by simp [Nodes.ofList])
        (by rw [Pointer.nodes_eq, hctx.node, hctx.above]; rfl)
      have hactual : y.node.isActual s = true := by
        rw [← hyn, Pointer.nodes_eq] at hgs
        exact hgs.isActual
      refine ⟨y, ?_, hyn⟩
      rw [getPointer, Action.result_bind, hsingle, firstOf_walk, hy]
      simp [hactual]
  · next hfirst =>
    simp only [hgs.isFirstItem_iff, not_forall] at hfirst
    obtain ⟨g, hg, n, hn, hone⟩ := hfirst
    have hplaces : ¬ g.IsSimple := by
      have := List.length_pos_of_mem hn
      rw [List.length_tail] at this
      rw [Segment.IsSimple]
      omega
    obtain ⟨o, hsingle⟩ := c.result_single ctx s hc
      (simplePath?_eq_none hg hplaces)
    have hnil := walk_eq_nil ctx.env s hg hbounds hn hone o
      (.ofList [ctx.env.root])
    rw [getPointer, Action.result_bind, hsingle, firstOf_walk, hnil]
    cases (ctx.env.walk .standard (gs.map Segment.step) o s
      (.ofList [ctx.env.root])).nodes.failure with
    | some e => exact ⟨e, rfl⟩
    | none => exact ⟨c.notFound, by simp [hstrict]⟩

end CompiledPath

/-! ## All printed paths -/

namespace Pointer

variable {s : Store} {root : Holder} {p : Pointer}

/-- Children and what is below them are listed. -/
theorem keepsAlong_listed (s : Store) (root : Holder) (o : Occasion) {axis : Axis}
    (haxis : axis = .child ∨ axis = .descendantOrSelf) :
    Environment.KeepsAlong (s.on o) .standard (Listed s root) axis := by
  intro p q a hp ha hq
  have hchild {p q : Pointer} {qs : List Pointer} (hp : Listed s root p)
      (h : p.children (s.on o) .standard = .ok qs) (hq : q ∈ qs) : Listed s root q :=
    .child hp (.on s o) h hq
  rcases haxis with rfl | rfl
  · obtain ⟨qs, hqs, rfl⟩ := Except.map_eq_ok_iff.1 ha
    rw [Search.nodes_ofList] at hq
    exact hchild hp hqs hq
  · exact kept_descendantsOrSelf hchild hp ha hq

theorem parse_everything : Grammar.parse "//*" =
    .ok (.path .root [.descendants, .mk .child (.name (.bare "*")) []]) := by
  with_unfolding_all rfl

/-- The path `//*` selects pointers that are listed. -/
theorem listed_of_selected {ctx : Context} {c : CompiledPath} {a : Search} {t : Store}
    (hctx : ctx.StartsAt root) (hc : Grammar.parse "//*" = .ok c.expr.value)
    (ha : (c.nodes ctx .standard).result s = (.ok a, t)) (hp : p ∈ a.nodes.items) :
    Listed s root p := by
  rw [parse_everything] at hc
  obtain ⟨o, hnodes⟩ := c.result_nodes .standard hctx (Except.ok.inj hc).symm nofun s
  rw [hnodes, Prod.mk.injEq, Except.ok.injEq] at ha
  obtain ⟨rfl, rfl⟩ := ha
  refine Environment.kept_walk (fun o step hstep => keepsAlong_listed s root o ?_) ?_ hp
  · simp only [List.mem_cons, List.not_mem_nil, or_false] at hstep
    rcases hstep with rfl | rfl
    · exact .inr rfl
    · exact .inl rfl
  · intro q hq
    obtain rfl := List.mem_singleton.1 (by simpa using hq)
    exact .root (by rw [nodes_eq, hctx.node, hctx.above]; rfl)

/-! ## A list in a list -/

/-- A list of one list, which holds two maps. -/
def nest : Store where
  maps := ⟨#[.ofList [("k", .list 0)], .ofList [("a", .bool true)], .ofList [("a", .bool false)]]⟩
  lists := ⟨#[[.list 1], [.map 1, .map 2]]⟩

/-- A strict context at the root of the nest. -/
def nestContext : Context :=
  let root : Pointer := { visit := { node := .map 0 none, occasion := {} } }
  { env := { root, locale := {}, lenient := false, own := { scope := 0 } }, here := root }

/-- The path `//*`. -/
def everything : CompiledPath where
  source := "//*"
  expr := { id := 0, value := .path .root [.descendants, .mk .child (.name (.bare "*")) []] }

theorem mem_of_reaches_nest {v : Value} (h : nest.Reaches (.map 0) v) :
    v ∈ [.map 0, .list 0, .list 1, .map 1, .map 2, .bool true, .bool false] := by
  have hheld : nest.held (.map 0) = [.list 0] ∧ nest.held (.list 0) = [.list 1] ∧
      nest.held (.list 1) = [.map 1, .map 2] ∧ nest.held (.map 1) = [.bool true] ∧
      nest.held (.map 2) = [.bool false] ∧ ∀ b, nest.held (.bool b) = [] :=
    ⟨rfl, rfl, rfl, rfl, rfl, fun _ => rfl⟩
  refine h.mem (by simp) ?_
  simp [hheld]

theorem namesReached_nest : nest.NamesReached (.map 0) := by
  intro h name hreach hname
  have hmem := mem_of_reaches_nest hreach
  cases h with
  | map id =>
    obtain rfl | rfl | rfl : id = 0 ∨ id = 1 ∨ id = 2 := by simpa [Holder.value] using hmem
    · obtain rfl : name = "k" := List.mem_singleton.1 hname
      rfl
    · obtain rfl : name = "a" := List.mem_singleton.1 hname
      rfl
    · obtain rfl : name = "a" := List.mem_singleton.1 hname
      rfl
  | bean id => simp [Holder.value] at hmem

theorem shortLists_nest : nest.ShortLists (.map 0) := by
  intro l hreach
  obtain rfl | rfl : l = 0 ∨ l = 1 := by simpa using mem_of_reaches_nest hreach
  · decide
  · decide

/-- What `//*` selects in the nest. -/
theorem selected_nest : ∃ a p q r t,
    (everything.nodes nestContext .standard).result nest = (.ok a, t) ∧ a.nodes.items = [p, q, r] ∧
      q.path nest = "/k[1][1]/a" ∧ q.nodes.all Node.isFirstItem = true ∧
        r.path nest = "/k[1][2]/a" ∧ r.nodes.all Node.isFirstItem = false := by
  have hpaths : ((everything.nodes nestContext .standard).result nest).1.toOption.map (fun a =>
      a.nodes.items.map fun p => (p.path nest, p.nodes.all Node.isFirstItem)) =
        some [("/k[1]", true), ("/k[1][1]/a", true), ("/k[1][2]/a", false)] := by
    decide +kernel
  rcases hresult : (everything.nodes nestContext .standard).result nest with ⟨_ | a, t⟩
  · simp [hresult, Except.toOption] at hpaths
  · simp only [hresult, Except.toOption, Option.map_some, Option.some.injEq,
      List.map_eq_cons_iff, List.map_eq_nil_iff] at hpaths
    obtain ⟨p, _, hitems, -, q, _, rfl, hq, r, _, rfl, hr, rfl⟩ := hpaths
    obtain ⟨hq, hqf⟩ := Prod.mk.inj hq
    obtain ⟨hr, hrf⟩ := Prod.mk.inj hr
    exact ⟨a, p, q, r, t, rfl, hitems, hq, hqf, hr, hrf⟩

theorem startsAt_nest : nestContext.StartsAt (.map 0) := ⟨rfl, rfl, rfl⟩

/-! ## Back to the node -/

/-- **A printed path addresses its node exactly if all items in items on the way to it are first
ones.** The path of a pointer that `//*` selects is well formed, and in a strict context it gives a
pointer with the same path and value in that case only. -/
theorem getPointer_path_iff {ctx : Context} {every : CompiledPath} {a : Search} {t u : Store}
    (hctx : ctx.StartsAt root) (hstrict : ctx.env.lenient = false)
    (hnames : s.NamesReached root.value)
    (hshort : s.ShortLists root.value)
    (hevery : Grammar.parse "//*" = .ok every.expr.value)
    (ha : (every.nodes ctx .standard).result s = (.ok a, t)) (hp : p ∈ a.nodes.items)
    (hu : s.SameGraph u) :
    ∃ e, Grammar.parse (p.path u) = .ok e ∧ ∀ c : CompiledPath, c.expr.value = e →
      ((∃ q, (c.getPointer ctx .standard).result u = (.ok q, u) ∧ q.path u = p.path u ∧
          ∀ v, q.value u .standard = .ok v ↔ p.value u .standard = .ok v) ↔
        ∀ n ∈ p.nodes, n.isFirstItem = true) := by
  have hnames := hnames.congr hu
  have hshort := hshort.congr hu
  have hlisted := (listed_of_selected hctx hevery ha hp).congr hu
  obtain ⟨gs, hgs, -⟩ := hlisted.leads ctx.env hnames hshort
  refine ⟨_, hgs.parse_path (hgs.isName hnames), fun c hc => ?_⟩
  have hget := c.getPointer_listed hctx hstrict hnames hshort hlisted
    (hc ▸ hgs.parse_path (hgs.isName hnames))
  split at hget
  · next hfirst =>
    obtain ⟨q, hq, hqn⟩ := hget
    have hnode : q.node = p.node := by
      rw [nodes_eq, nodes_eq] at hqn
      exact (List.cons.inj hqn).1
    have hplain : p.node.IsPlain := IsAddressed.isPlain ⟨gs, hgs⟩
    refine iff_of_true ⟨q, hq, by rw [path, path, hqn], fun v => ?_⟩ hfirst
    rw [value_eq_ok_iff hplain, value_eq_ok_iff (hnode ▸ hplain), hnode]
  · next hfirst =>
    obtain ⟨e, he⟩ := hget
    refine iff_of_false ?_ hfirst
    rintro ⟨q, hq, -⟩
    rw [hq] at he
    simp at he

/-- The first item of an item leads back to itself. -/
theorem getPointer_path_iff_nest : ∃ a p t,
    (everything.nodes nestContext .standard).result nest = (.ok a, t) ∧ p ∈ a.nodes.items ∧
      p.path nest = "/k[1][1]/a" ∧ ∃ e, Grammar.parse (p.path nest) = .ok e ∧
        ∀ c : CompiledPath, c.expr.value = e →
          ∃ q, (c.getPointer nestContext .standard).result nest = (.ok q, nest) ∧
            q.path nest = p.path nest := by
  obtain ⟨a, _, q, _, t, hresult, hitems, hpath, hfirst, -⟩ := selected_nest
  have hq : q ∈ a.nodes.items := by simp [hitems]
  obtain ⟨e, he, hiff⟩ := getPointer_path_iff startsAt_nest rfl namesReached_nest shortLists_nest
    parse_everything hresult hq (.refl nest)
  refine ⟨a, q, t, hresult, hq, hpath, e, he, fun c hc => ?_⟩
  obtain ⟨x, hx, hxp, -⟩ := (hiff c hc).2 (List.all_eq_true.1 hfirst)
  exact ⟨x, hx, hxp⟩

/-- The second item of an item is not found by its path. -/
theorem getPointer_path_nest_second : ∃ a p t,
    (everything.nodes nestContext .standard).result nest = (.ok a, t) ∧ p ∈ a.nodes.items ∧
      p.path nest = "/k[1][2]/a" ∧
      ∀ c : CompiledPath, Grammar.parse (p.path nest) = .ok c.expr.value →
        ¬ ∃ q, (c.getPointer nestContext .standard).result nest = (.ok q, nest) := by
  obtain ⟨a, _, _, r, t, hresult, hitems, -, -, hpath, hfirst⟩ := selected_nest
  have hr : r ∈ a.nodes.items := by simp [hitems]
  refine ⟨a, r, t, hresult, hr, hpath, fun c hc => ?_⟩
  have hlisted := listed_of_selected startsAt_nest parse_everything hresult hr
  have hget := c.getPointer_listed startsAt_nest rfl namesReached_nest shortLists_nest hlisted hc
  rw [if_neg (by simpa using hfirst)] at hget
  obtain ⟨e, he⟩ := hget
  rintro ⟨q, hq⟩
  rw [hq] at he
  simp at he

end Pointer

end PathQuery
