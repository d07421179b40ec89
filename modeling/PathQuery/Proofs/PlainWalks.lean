import PathQuery.Proofs.DistinctAxes
import PathQuery.Proofs.OnePerPath

/-!
# Walks in their plain reading

Read plainly, a step puts one after another what it finds from every node before it, and then keeps
the first pointer of every path. A walk does less: it compares paths only for axes that overlap, and
only when there are two nodes to start from. In a flat graph that makes no difference.

* names: `Environment.selected`, `Environment.plainWalk`.
* **`advance_eq_unique`** for one step: where paths are not compared, no path is found twice.
* **`walk_eq_plainWalk`** for the steps of a path, by the invariant that the nodes between two steps
  are distinct. **`compute_path_eq_plainWalk`** for absolute paths.
-/

namespace PathQuery

/-! ## Sequences without failure -/

namespace Nodes

theorem failure_append {a b : Nodes} (h : (a ++ b).failure = none) :
    a.failure = none ∧ b.failure = none := by
  obtain ⟨as, _ | e⟩ := a
  · exact ⟨rfl, h⟩
  · simp at h

theorem items_append {a b : Nodes} (h : a.failure = none) :
    (a ++ b).items = a.items ++ b.items := by
  obtain ⟨as, _ | e⟩ := a
  · rfl
  · simp at h

/-- Nothing is lost of what is found without failure. -/
theorem flatMap_of_failure_eq_none {a : Nodes} {f : Pointer → Nodes}
    (h : (a.flatMap f).failure = none) :
    a.failure = none ∧ (∀ p ∈ a.items, (f p).failure = none) ∧
      (a.flatMap f).items = a.items.flatMap fun p => (f p).items := by
  obtain ⟨items, failure⟩ := a
  induction items with
  | nil => exact ⟨h, by simp, rfl⟩
  | cons p items ih =>
    obtain ⟨hfirst, hrest⟩ := failure_append (b := flatMap ⟨items, failure⟩ f) h
    obtain ⟨hfailure, hitems, heq⟩ := ih hrest
    refine ⟨hfailure, fun q hq => ?_, ?_⟩
    · rcases List.mem_cons.1 hq with rfl | hq
      · exact hfirst
      · exact hitems q hq
    · exact (items_append hfirst).trans (congrArg _ heq)

end Nodes

namespace Pointer

variable {s : Store} {ps : List Pointer}

theorem uniqueFrom_eq_self {seen : TextSet} (h : ps.Pairwise fun p q => p.path s ≠ q.path s)
    (hseen : ∀ p ∈ ps, seen.contains (p.path s) = false) : uniqueFrom s seen ps = ps := by
  induction ps generalizing seen with
  | nil => rfl
  | cons p ps ih =>
    obtain ⟨hp, hps⟩ := List.pairwise_cons.1 h
    rw [uniqueFrom, hseen p (List.mem_cons_self ..), if_neg Bool.false_ne_true, ih hps]
    intro q hq
    simp [Std.TreeSet.contains_insert, hseen q (List.mem_cons_of_mem _ hq), hp q hq]

theorem unique_eq_self (h : ps.Pairwise fun p q => p.path s ≠ q.path s) : unique s ps = ps :=
  uniqueFrom_eq_self h fun _ _ => Std.TreeSet.contains_emptyc

theorem distinct_of_pairwise_path (h : ps.Pairwise fun p q => p.path s ≠ q.path s) :
    Distinct ps :=
  h.imp fun hne heq => hne (by rw [path, path, heq])

end Pointer

namespace Environment

variable {r : Registry} {env : Environment} {s : Store} {o : Occasion} {p q : Pointer}
variable {axis : Axis} {test : NodeTest} {predicates : List Expr}

/-! ## What a step selects -/

/-- The candidates of a step from one node that pass its test and its predicates. -/
def selected (r : Registry) (env : Environment) (s : Store) (o : Occasion) :
    Step → Pointer → Except PathError (List Pointer)
  | .mk axis test predicates, p => do
    let found ← (← p.along (s.on (o.part 0)) r axis).all
    env.narrow r predicates ((o.part 0).part 0)
      (found.filter fun q => q.passes (s.on (o.part 0)) test) s

/-- The plain reading of the steps of a path: at every step all that is selected from the nodes
before it, in order, and of that the first pointer of every path. -/
def plainWalk (r : Registry) (env : Environment) :
    List Step → Occasion → Store → List Pointer → Except PathError (List Pointer)
  | [], _, _, ps => pure ps
  | step :: steps, o, s, ps => do
    let found ← ps.mapM (env.selected r s o step)
    plainWalk r env steps (o.part 1) s (Pointer.unique s found.flatten)

theorem ofExcept_of_failure_eq_none {x : Except PathError Search}
    (h : (Search.ofExcept x).nodes.failure = none) : ∃ a, x = .ok a ∧ a.nodes.failure = none := by
  cases x with
  | error e => simp [Search.ofExcept, Nodes.fail] at h
  | ok a => exact ⟨a, rfl, h⟩

theorem all_of_failure_eq_none {a : Search} (h : a.nodes.failure = none) :
    a.all = .ok a.nodes.items := by
  rw [Search.all, Nodes.all, h]

/-- Candidates that do not fail are those on the axis that pass the test. -/
theorem exists_along_of_candidates (h : (candidates r s axis test p).nodes.failure = none) :
    ∃ a, p.along s r axis = .ok a ∧ a.nodes.failure = none ∧
      (candidates r s axis test p).nodes.items =
        a.nodes.items.filter fun q => q.passes s test := by
  obtain ⟨b, hb, hfailure⟩ := ofExcept_of_failure_eq_none h
  obtain ⟨a, ha, rfl⟩ := Except.map_eq_ok_iff.1 hb
  rw [Search.nodes_filter] at hfailure
  refine ⟨a, ha, hfailure, ?_⟩
  rw [candidates, ha]
  exact congrArg Nodes.items (Search.nodes_filter ..)

/-- A step that does not fail finds what it selects. -/
theorem selected_eq_of_find
    (h : (env.find r s o axis test predicates p).nodes.failure = none) :
    env.selected r s o (.mk axis test predicates) p =
      .ok (env.find r s o axis test predicates p).nodes.items := by
  rw [find] at h ⊢
  split at h
  · next hnil =>
    obtain ⟨a, ha, hfailure, hitems⟩ := exists_along_of_candidates h
    rw [if_pos hnil, hitems, selected, ha, List.isEmpty_iff.1 hnil]
    simp only [Except.ok_bind, all_of_failure_eq_none hfailure, narrow, Except.pure_eq_ok]
  · next hcons =>
    rw [if_neg hcons]
    obtain ⟨b, hb, hfailure⟩ := ofExcept_of_failure_eq_none h
    rw [hb]
    obtain ⟨found, hfound, hb⟩ := Except.bind_eq_ok_iff.1 hb
    obtain ⟨kept, hkept, hb⟩ := Except.bind_eq_ok_iff.1 hb
    obtain rfl := Except.ok.inj hb
    have hnodes := Search.all_eq_ok_iff.1 hfound
    obtain ⟨a, ha, hfailure, hitems⟩ := exists_along_of_candidates (by rw [hnodes]; rfl)
    rw [hnodes, Nodes.items_ofList] at hitems
    rw [selected, ha]
    simp only [Except.ok_bind, all_of_failure_eq_none hfailure, ← hitems, hkept, Search.ofExcept,
      Search.nodes_ofList, Nodes.items_ofList]

theorem filterMapM_sublist {f : Pointer × Nat → Except PathError (Option Pointer)}
    {nodes kept : List Pointer} {k : Nat} (hf : ∀ p i x, f (p, i) = .ok (some x) → x = p)
    (h : (nodes.zipIdx k).filterMapM f = .ok kept) : kept.Sublist nodes := by
  induction nodes generalizing k kept with
  | nil =>
    obtain rfl := Except.ok.inj h
    exact .slnil
  | cons p nodes ih =>
    rw [List.zipIdx_cons, List.filterMapM_cons] at h
    obtain ⟨one, hone, h⟩ := Except.bind_eq_ok_iff.1 h
    cases one with
    | none => exact (ih h).cons p
    | some x =>
      obtain ⟨rest, hrest, rfl⟩ := Except.map_eq_ok_iff.1 h
      obtain rfl := hf _ _ _ hone
      exact (ih hrest).cons_cons x

/-- Predicates keep the order of the nodes that they leave. -/
theorem narrow_sublist {nodes kept : List Pointer}
    (h : env.narrow r predicates o nodes s = .ok kept) : kept.Sublist nodes := by
  induction predicates generalizing o nodes with
  | nil =>
    rw [narrow] at h
    exact Except.ok.inj h ▸ List.Sublist.refl _
  | cons predicate predicates ih =>
    rw [narrow] at h
    obtain ⟨left, hleft, h⟩ := Except.bind_eq_ok_iff.1 h
    refine (ih h).trans (filterMapM_sublist (fun p i x hx => ?_) hleft)
    obtain ⟨b, -, hx⟩ := Except.bind_eq_ok_iff.1 hx
    cases b <;> simp_all

theorem exists_along_of_selected {found : List Pointer}
    (h : env.selected r s o (.mk axis test predicates) p = .ok found) :
    ∃ a, p.along (s.on (o.part 0)) r axis = .ok a ∧ found.Sublist a.nodes.items := by
  obtain ⟨a, ha, h⟩ := Except.bind_eq_ok_iff.1 h
  obtain ⟨all, hall, h⟩ := Except.bind_eq_ok_iff.1 h
  refine ⟨a, ha, ?_⟩
  rw [Search.all_eq_ok_iff.1 hall]
  exact (narrow_sublist h).trans List.filter_sublist

/-! ## One step -/

section Step

variable {f : Pointer → Search} {a : Search} {ps : List Pointer}

/-- A step that does not fail gathers what it finds from every node before it; it compares paths
unless the axis does not overlap or there is no second node. -/
theorem nodes_advance (h : (advance s axis f a).nodes.failure = none) :
    (a.nodes.flatMap fun p => (f p).nodes).failure = none ∧
      ((advance s axis f a).nodes.items =
          Pointer.unique s (a.nodes.flatMap fun p => (f p).nodes).items ∨
        (advance s axis f a).nodes.items = (a.nodes.flatMap fun p => (f p).nodes).items ∧
          (axis.overlaps = false ∨ a.nodes.items.length ≤ 1)) := by
  unfold advance at h ⊢
  split at h
  · next hoverlaps =>
    rw [if_pos hoverlaps]
    cases a with
    | ended => exact ⟨rfl, .inr ⟨rfl, .inr (Nat.zero_le 1)⟩⟩
    | broken e => simp [Nodes.fail] at h
    | found p more =>
      simp only at h ⊢
      cases hmore : more () with
      | ended =>
        rw [hmore] at h
        have hone : (Search.found p more).nodes = .ofList [p] := by simp [hmore]
        have hflat : ((Search.found p more).nodes.flatMap fun p => (f p).nodes) = (f p).nodes := by
          rw [Search.nodes_found, Nodes.flatMap_cons, hmore, Search.nodes_ended, Nodes.flatMap_nil,
            Nodes.append_nil]
        rw [hflat]
        exact ⟨h, .inr ⟨rfl, .inr (by simp [hone])⟩⟩
      | broken e =>
        rw [hmore] at h
        simp [Nodes.fail] at h
      | found q rest =>
        rw [hmore] at h
        have hnodes : (Search.found p fun _ => .found q rest).nodes =
            (Search.found p more).nodes := by simp [hmore]
        simp only [Search.nodes_distinct, Search.nodes_gather, hnodes] at h ⊢
        exact ⟨h, .inl trivial⟩
  · next hoverlaps =>
    rw [if_neg hoverlaps]
    rw [Search.nodes_gather] at h ⊢
    exact ⟨h, .inr ⟨rfl, .inl (by simpa using hoverlaps)⟩⟩

variable {root : Holder}

/-- **Where a step compares no paths it finds none twice**, so it always gives the first pointer of
every path. -/
theorem advance_eq_unique {qs : List Pointer} (hnames : s.NamesReached root.value)
    (hflat : s.FlatLists root.value) (haxis : axis ≠ .attribute)
    (hps : ∀ p ∈ ps, Pointer.IsAddressed s root p) (hdistinct : Pointer.Distinct ps)
    (ha : a.nodes = .ofList ps)
    (h : (advance s axis (env.find .standard s o axis test predicates) a).nodes = .ofList qs) :
    ∃ found, ps.mapM (env.selected .standard s o (.mk axis test predicates)) = .ok found ∧
      qs = Pointer.unique s found.flatten := by
  let g (p : Pointer) : List Pointer := (env.find .standard s o axis test predicates p).nodes.items
  obtain ⟨hfailure, hitems⟩ := nodes_advance (by rw [h]; rfl)
  rw [ha] at hfailure hitems
  obtain ⟨-, hfound, hflatMap⟩ := Nodes.flatMap_of_failure_eq_none hfailure
  rw [hflatMap, h, Nodes.items_ofList] at hitems
  have hselected : ∀ p ∈ ps,
      env.selected .standard s o (.mk axis test predicates) p = .ok (g p) :=
    fun p hp => selected_eq_of_find (hfound p hp)
  have hmapM : ps.mapM (env.selected .standard s o (.mk axis test predicates)) =
      .ok (ps.map g) :=
    Except.mapM_eq_ok_iff.2 (List.forall₂_map_right_iff.2 (List.forall₂_same.2 hselected))
  refine ⟨_, hmapM, ?_⟩
  rw [← List.flatMap_def]
  rcases hitems with hitems | ⟨hitems, hfew⟩
  · exact hitems
  -- The axes see the graph on another occasion, on which everything stands where it stood.
  have hgraph := Store.SameGraph.on s (o.part 0)
  have hflat' := hflat.congr hgraph
  have halong : ∀ p ∈ ps, ∃ b, p.along (s.on (o.part 0)) .standard axis = .ok b ∧
      (g p).Sublist b.nodes.items := fun p hp => exists_along_of_selected (hselected p hp)
  have haddressed (p : Pointer) (hp : Pointer.IsAddressed s root p) :
      Pointer.IsAddressed (s.on (o.part 0)) root p := Pointer.isAddressed_congr hgraph ▸ hp
  have hkept : ∀ q ∈ ps.flatMap g, Pointer.IsAddressed s root q := by
    intro q hq
    obtain ⟨p, hp, hq⟩ := List.mem_flatMap.1 hq
    obtain ⟨b, hb, hsub⟩ := halong p hp
    rw [Pointer.isAddressed_congr hgraph]
    exact (Pointer.kept_isAddressed (s.on (o.part 0)) root).along haxis (haddressed p (hps p hp)) hb
      (hsub.mem hq)
  have hchains : Pointer.Distinct (ps.flatMap g) := by
    refine List.pairwise_flatMap.2 ⟨fun p hp => ?_, ?_⟩
    · obtain ⟨b, hb, hsub⟩ := halong p hp
      exact (Pointer.distinct_along hflat' haxis (haddressed p (hps p hp)) hb).sublist hsub
    · rcases hfew with hoverlaps | hlength
      · refine hdistinct.imp_of_mem fun {p p'} hp hp' hne q hq q' hq' => ?_
        obtain ⟨b, hb, hsub⟩ := halong p hp
        obtain ⟨b', hb', hsub'⟩ := halong p' hp'
        exact Pointer.ne_of_along hflat' haxis hoverlaps (haddressed p (hps p hp))
          (haddressed p' (hps p' hp')) hne hb hb' (hsub.mem hq) (hsub'.mem hq')
      · rw [Nodes.items_ofList] at hlength
        cases ps with
        | nil => exact List.Pairwise.nil
        | cons p rest =>
          obtain rfl : rest = [] := List.length_eq_zero_iff.1 (by simpa using hlength)
          exact List.pairwise_singleton ..
  rw [hitems]
  refine (Pointer.unique_eq_self (hchains.imp_of_mem fun {q q'} hq hq' hne hpath => hne ?_)).symm
  exact (Pointer.nodes_eq_iff_path_eq hnames hflat (hkept q hq) (hkept q' hq')).2 hpath

end Step

/-! ## Walks -/

theorem failure_of_advance {f : Pointer → Search} {a : Search}
    (h : (advance s axis f a).nodes.failure = none) : a.nodes.failure = none :=
  (Nodes.flatMap_of_failure_eq_none (nodes_advance h).1).1

/-- A failure on the way is a failure in the end. -/
theorem failure_of_walk {steps : List Step} {a : Search}
    (h : (env.walk r steps o s a).nodes.failure = none) : a.nodes.failure = none := by
  induction steps generalizing o a with
  | nil =>
    rw [walk] at h
    exact h
  | cons step steps ih =>
    obtain ⟨axis, test, predicates⟩ := step
    rw [walk_cons] at h
    exact failure_of_advance (ih h)

variable {root : Holder} {steps : List Step} {ps qs : List Pointer} {a : Search}

/-- **A walk that does not fail finds what its plain reading finds**, and no path twice. -/
theorem walk_eq_plainWalk (hnames : s.NamesReached root.value) (hflat : s.FlatLists root.value)
    (haxes : ∀ step ∈ steps, step.axis ≠ .attribute)
    (hps : ∀ p ∈ ps, Pointer.IsAddressed s root p)
    (hdistinct : ps.Pairwise fun p q => p.path s ≠ q.path s) (ha : a.nodes = .ofList ps)
    (h : (env.walk .standard steps o s a).all = .ok qs) :
    env.plainWalk .standard steps o s ps = .ok qs ∧
      qs.Pairwise fun p q => p.path s ≠ q.path s := by
  induction steps generalizing o a ps with
  | nil =>
    rw [walk, Search.all_eq_ok_iff, ha] at h
    obtain rfl := congrArg Nodes.items h
    exact ⟨rfl, hdistinct⟩
  | cons step steps ih =>
    obtain ⟨axis, test, predicates⟩ := step
    rw [walk_cons] at h
    have haxis : axis ≠ .attribute := haxes _ (List.mem_cons_self ..)
    have hsteps : ∀ step ∈ steps, step.axis ≠ .attribute :=
      fun step hs => haxes step (List.mem_cons_of_mem _ hs)
    have hfailure := failure_of_walk (by rw [Search.all_eq_ok_iff.1 h]; rfl)
    let found := advance s axis (env.find .standard s o axis test predicates) a
    have hnodes : found.nodes = .ofList found.nodes.items := by
      rw [Nodes.ofList, ← hfailure]
    obtain ⟨lists, hlists, hunique⟩ := advance_eq_unique hnames hflat haxis hps
      (Pointer.distinct_of_pairwise_path hdistinct) ha hnodes
    have hkept : ∀ q ∈ found.nodes.items, Pointer.IsAddressed s root q := by
      intro q hq
      obtain ⟨p, hp, hq⟩ := mem_advance hq
      rw [ha, Nodes.items_ofList] at hp
      rw [Pointer.isAddressed_congr (Store.SameGraph.on s (o.part 0))]
      refine kept_candidates (fun hp hb hq => ?_) ?_ (mem_find hq)
      · exact (Pointer.kept_isAddressed _ root).along haxis hp hb hq
      · exact Pointer.isAddressed_congr (Store.SameGraph.on s (o.part 0)) ▸ hps p hp
    have hpaths : found.nodes.items.Pairwise fun p q => p.path s ≠ q.path s := by
      rw [hunique]
      exact Pointer.path_uniqueFrom.1
    rw [plainWalk, hlists, Except.ok_bind, ← hunique]
    exact ih hsteps hkept hpaths hnodes h

/-- A map that holds itself, once in a slot and once in a list. -/
def ring : Store where
  maps := ⟨#[.ofList [("a", .map 0), ("b", .list 0)]]⟩
  lists := ⟨#[[.bool true, .map 0]]⟩

/-- An environment for the ring. -/
def ringEnvironment : Environment where
  root := { visit := { node := .map 0 none, occasion := {} } }
  locale := {}
  lenient := false
  own := { scope := 0 }

theorem namesReached_ring : ring.NamesReached (.map 0) := by
  intro h name _ hname
  have hcases : name = "a" ∨ name = "b" := by
    rcases h with (_ | id) | id
    · exact List.mem_pair.1 hname
    · simp [ring, Store.slots, Pool.get, Table.keys, default, Table.empty] at hname
    · simp [ring, Store.slots, Pool.get, Table.keys, default, Table.empty] at hname
  rcases hcases with rfl | rfl
  · rfl
  · rfl

theorem flatLists_ring : ring.FlatLists (.map 0) := by
  rintro (_ | l) v - hv
  · obtain rfl | rfl : v = .bool true ∨ v = .map 0 := List.mem_pair.1 hv
    · rfl
    · rfl
  · simp [ring, Pool.get, default] at hv

end Environment

end PathQuery
