import PathQuery.Proofs.Forks
import PathQuery.Proofs.WalksDown

/-!
# The walk down in preorder

Where nothing holds itself, a walk down is never in a value that it comes to, so it goes on below
every pointer: it visits the trees of children in preorder, and this is document order.

* names: `Pointer.HasChild`, `Pointer.InPreorder`.
* `InPreorder.mem_iff`, `InPreorder.pairwise`: what a preorder consists of, and its order.
* **`descendantsOrSelf_inPreorder`**: the nodes found from any pointer into a graph without cycles.
-/

namespace PathQuery

open Relation (ReflTransGen)

namespace Pointer

variable {s : Store} {root v : Value} {p q : Pointer} {ps qs cs : List Pointer}

/-- The second pointer is one of the children of the first. -/
def HasChild (s : Store) (p q : Pointer) : Prop :=
  ∃ cs, p.children s .standard = .ok cs ∧ q ∈ cs

/-- The trees of children below some pointers in preorder: each pointer, then the trees of its
children in turn, then those of the pointers after it. -/
inductive InPreorder (s : Store) : List Pointer → List Pointer → Prop
  | nil : InPreorder s [] []
  | cons {p : Pointer} {ps cs below rest : List Pointer} (hcs : p.children s .standard = .ok cs)
    (hbelow : InPreorder s cs below) (hrest : InPreorder s ps rest) :
    InPreorder s (p :: ps) (p :: (below ++ rest))

theorem hasChild_iff_mem (hcs : p.children s .standard = .ok cs) : HasChild s p q ↔ q ∈ cs := by
  simp [HasChild, hcs]

/-- The preorder of one tree. -/
theorem inPreorder_singleton_iff : InPreorder s [p] qs ↔
    ∃ cs below, p.children s .standard = .ok cs ∧ InPreorder s cs below ∧ qs = p :: below := by
  constructor
  · rintro (_ | ⟨hcs, hbelow, ⟨⟩⟩)
    exact ⟨_, _, hcs, hbelow, by rw [List.append_nil]⟩
  · rintro ⟨cs, below, hcs, hbelow, rfl⟩
    rw [← List.append_nil below]
    exact .cons hcs hbelow .nil

/-- **A preorder consists of the pointers that repeated steps to children lead to.** -/
theorem InPreorder.mem_iff (h : InPreorder s ps qs) :
    q ∈ qs ↔ ∃ p ∈ ps, ReflTransGen (HasChild s) p q := by
  induction h with
  | nil => simp
  | @cons p ps cs below rest hcs _ _ ihbelow ihrest =>
    have hp : ReflTransGen (HasChild s) p q ↔
        q = p ∨ ∃ c ∈ cs, ReflTransGen (HasChild s) c q := by
      rw [Relation.ReflTransGen.cases_head_iff, eq_comm]
      simp only [hasChild_iff_mem hcs]
    simp only [List.mem_cons, List.mem_append, ihbelow, ihrest, exists_eq_or_imp, hp, or_assoc]

/-- What is below a pointer that is no whole collection goes on from its chain. -/
theorem goes_on_of_reflTransGen (hp : p.IsSingle s) (h : ReflTransGen (HasChild s) p q) :
    q.IsSingle s ∧ p.nodes <:+ q.nodes := by
  induction h with
  | refl => exact ⟨hp, List.suffix_rfl⟩
  | tail _ hchild ih =>
    obtain ⟨cs, hcs, hmem⟩ := hchild
    have hchild := isChild_of_mem ih.1.1 hcs hmem
    exact ⟨hchild.isSingle, ih.2.trans (hchild.goes_on ih.1.2).1⟩

theorem InPreorder.goes_on (h : InPreorder s ps qs) (hps : ∀ p ∈ ps, p.IsSingle s) (hq : q ∈ qs) :
    ∃ p ∈ ps, p.nodes <:+ q.nodes := by
  obtain ⟨p, hp, hpq⟩ := h.mem_iff.1 hq
  exact ⟨p, hp, (goes_on_of_reflTransGen (hps p hp) hpq).2⟩

theorem isSingle_of_mem_children (hp : p.node.IsPlain) (hcs : p.children s .standard = .ok cs) :
    ∀ c ∈ cs, c.IsSingle s := fun _ hc => (isChild_of_mem hp hcs hc).isSingle

/-- A pointer comes before all that is below it. -/
theorem InPreorder.before (hp : p.node.IsPlain) (hcs : p.children s .standard = .ok cs)
    (h : InPreorder s cs qs) : ∀ q ∈ qs, Before s p q := by
  intro q hq
  obtain ⟨c, hc, hsuffix⟩ := h.goes_on (isSingle_of_mem_children hp hcs) hq
  exact (isChild_of_mem hp hcs hc).before.extend hsuffix

/-- **Preorder is document order**, if the trees themselves stand in that order. -/
theorem InPreorder.pairwise (h : InPreorder s ps qs) (hps : ∀ p ∈ ps, p.IsSingle s)
    (hforks : ps.Pairwise fun p p' => s.ForksBefore p.nodes p'.nodes) :
    qs.Pairwise (Before s) := by
  induction h with
  | nil => exact .nil
  | @cons p ps cs below rest hcs hbelow hrest ihbelow ihrest =>
    obtain ⟨hp, hps⟩ := List.forall_mem_cons.1 hps
    obtain ⟨hfirst, hforks⟩ := List.pairwise_cons.1 hforks
    have hsingle := isSingle_of_mem_children hp.1 hcs
    -- a later tree forks off from this one at its root
    have hlater {x y : Pointer} (hx : p.nodes <:+ x.nodes) (hy : y ∈ rest) : Before s x y := by
      obtain ⟨p', hp', hsuffix⟩ := hrest.goes_on hps hy
      exact .inl ((hfirst p' hp').extend hx hsuffix)
    refine List.pairwise_cons.2 ⟨fun x hx => ?_, List.pairwise_append.2
      ⟨ihbelow hsingle (pairwise_forksBefore hp.1 hcs), ihrest hps hforks, fun x hx y hy => ?_⟩⟩
    · rcases List.mem_append.1 hx with hx | hx
      · exact hbelow.before hp.1 hcs x hx
      · exact hlater List.suffix_rfl hx
    · obtain ⟨c, hc, hsuffix⟩ := hbelow.goes_on hsingle hx
      exact hlater (((isChild_of_mem hp.1 hcs hc).goes_on hp.2).1.trans hsuffix) hy

/-- **A walk down a graph without cycles goes on below every pointer.** It is inside values each of
which holds what leads on to the next, so it does not come to any of them again. -/
theorem Walks.inPreorder {inside : List Value} (hacyclic : s.Acyclic root)
    (h : Walks s inside ps qs) (hps : ∀ p ∈ ps, p.node.IsPlain ∧ ∀ v, p.node.end? s = some v →
      v.isObject = true → s.Reaches root v ∧ Inside s root inside v) : InPreorder s ps qs := by
  induction h with
  | done => exact .nil
  | @stop inside p ps rest v hv hstops _ ih =>
    obtain ⟨⟨hp, hinside⟩, hps⟩ := List.forall_mem_cons.1 hps
    cases hobject : v.isObject with
    | false => exact .cons (children_of_not_isObject hp hv hobject) .nil (ih hps)
    | true =>
      have hgoes := (hinside v ((value_eq_ok_iff hp).1 hv) hobject).2.not_same hacyclic hobject
      have hatom : (v.isNull || v.isScalar) = false := by
        cases v <;> first | rfl | cases hobject
      rw [Value.stops, hatom, hgoes] at hstops
      cases hstops
  | @enter inside p ps cs below rest v hv hgoes hcs _ _ ihbelow ihrest =>
    obtain ⟨⟨hp, hinside⟩, hps⟩ := List.forall_mem_cons.1 hps
    have hend := (value_eq_ok_iff hp).1 hv
    obtain ⟨hreach, hinside⟩ := hinside v hend (isObject_of_goes_on hp hv hgoes)
    refine .cons hcs (ihbelow fun c hc => ?_) (ihrest hps)
    have hchild := isChild_of_mem hp hcs hc
    refine ⟨hchild.isSingle.1, fun w hw _ => ?_⟩
    obtain ⟨u, hu, huw⟩ := hchild.exists_held hend hw
    exact ⟨hreach.trans ((Store.reaches_of_mem_held hu).trans huw),
      hinside.child hreach hchild hend hw⟩

/-- The search for the nodes below a pointer finds the tree of the pointer in preorder. -/
theorem descendants_inPreorder (hacyclic : s.Acyclic root) (hends : s.Resolves root)
    (hp : p.PointsInto s root) :
    ∃ a below, p.descendants s .standard = .ok a ∧ a.nodes = .ofList below ∧
      InPreorder s [p] (p :: below) := by
  obtain ⟨cs, v, a, below, hcs, hv, ha, hbelow, hwalk⟩ :=
    walks_descendants hacyclic.isClosed hends hp
  refine ⟨a, below, ha, hbelow, (hwalk.of_children hp.isPlain hcs hv).inPreorder hacyclic ?_⟩
  rintro _ (_ | ⟨_, ⟨⟩⟩)
  exact ⟨hp.isPlain, fun v hend hobject => ⟨(hp.reaches_end hend hobject).2, nofun⟩⟩

/-- A tree is in document order. -/
theorem InPreorder.before_of_singleton (hp : p.node.IsPlain) (h : InPreorder s [p] qs) :
    qs.Pairwise (Before s) := by
  obtain ⟨cs, below, hcs, hbelow, rfl⟩ := inPreorder_singleton_iff.1 h
  exact List.pairwise_cons.2 ⟨hbelow.before hp hcs,
    hbelow.pairwise (isSingle_of_mem_children hp hcs) (pairwise_forksBefore hp hcs)⟩

/-- A list of a map, of a list with the same map and of a cell with it, under a name that is no name
of a path. -/
def attic : Store where
  lists := ⟨#[[.map 1, .list 1, .cell 0], [.map 1, .null]]⟩
  maps := ⟨#[.ofList [("a b", .list 0), ("c", .map 1)], .ofList [("x", .bool true)]]⟩
  cells := ⟨#[.map 1]⟩

/-- The slot with the list, whole. -/
def atticList : Pointer :=
  Pointer.child { visit := { node := .map 0 none, occasion := {} } } {}
    (.slot (.map 0) (.bare "a b") .whole false)

theorem mem_of_reaches_attic {v : Value} (h : attic.Reaches (.map 0) v) :
    v ∈ [Value.map 0, .list 0, .map 1, .list 1, .cell 0, .bool true, .null] :=
  h.mem (List.mem_cons_self ..) (by decide)

theorem acyclic_attic : attic.Acyclic (.map 0) := by
  refine Store.acyclic_of_shallow (n := 4) ?_ fun v o hv ho => ?_
  · simp [Store.Shallow, Store.held, attic, Store.slots, Pool.get, Table.ofList, Table.insert,
      Table.put, Table.empty, Value.isObject]
  · have hmem := mem_of_reaches_attic hv
    simp only [List.mem_cons, List.not_mem_nil, or_false] at hmem
    rcases hmem with rfl | rfl | rfl | rfl | rfl | rfl | rfl <;> cases ho <;>
      simp [Store.Has, attic, Pool.size]

theorem resolves_attic : attic.Resolves (.map 0) := by
  intro v hv
  have hmem := mem_of_reaches_attic hv
  simp only [List.mem_cons, List.not_mem_nil, or_false] at hmem
  rcases hmem with rfl | rfl | rfl | rfl | rfl | rfl | rfl <;> exact ⟨_, rfl⟩

end Pointer

end PathQuery
