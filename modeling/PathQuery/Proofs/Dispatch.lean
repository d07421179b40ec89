import Mathlib.Data.List.Induction
import Mathlib.Data.Prod.Lex
import PathQuery.Registry

/-!
# Dispatch

A registry numbers its factories as they are registered and sorts its entries with every
registration. Its factories always stand as a stable sort of their registrations puts them, so the
first that answers is the accepting one with the least order, the earliest of those of one order.

* names: `Registered.key`, `Registered.numbered`; `Request.pointer`, `Factory.IsFirst`.
* `entries_register`, `sorted_register`: what one registration does. `entries_perm`,
  `sorted_entries`: and what a sequence of them comes to.
* **`create_ofFactories`**: the order of consultation and what is made for a request.
-/

namespace PathQuery

/-! ## Entries -/

namespace Registered

/-- What entries are sorted by. -/
def key (e : Registered) : Int ×ₗ Nat := toLex (e.factory.order, e.number)

theorem notAfter_iff {a b : Registered} :
    Sorting.notAfter before a b = true ↔ a.key ≤ b.key := by
  rw [Sorting.notAfter, Bool.not_eq_true', ← Bool.not_eq_true, ← not_lt]
  simp [before, key, Prod.Lex.toLex_lt_toLex]

/-- The entries of factories that are numbered as they come. -/
def numbered (fs : List Factory) : List Registered := fs.zipIdx.map fun x => ⟨x.1, x.2⟩

theorem mem_numbered {fs : List Factory} {e : Registered} :
    e ∈ numbered fs ↔ fs[e.number]? = some e.factory := by
  rw [numbered, List.mem_map, ← List.mk_mem_zipIdx_iff_getElem?]
  constructor
  · rintro ⟨x, hx, rfl⟩
    exact hx
  · exact fun he => ⟨_, he, rfl⟩

theorem numbered_concat (fs : List Factory) (f : Factory) :
    numbered (fs ++ [f]) = numbered fs ++ [⟨f, fs.length⟩] := by
  simp [numbered, List.zipIdx_append]

theorem map_factory_numbered (fs : List Factory) : (numbered fs).map factory = fs := by
  rw [numbered, List.map_map]
  exact List.zipIdx_map_fst 0 fs

theorem sorted_numbered (fs : List Factory) :
    (numbered fs).Pairwise fun a b => a.number ≤ b.number := by
  have hnumbers : (numbered fs).map number = List.range' 0 fs.length := by
    rw [numbered, List.map_map]
    exact List.zipIdx_map_snd 0 fs
  have hsorted : ((numbered fs).map number).Pairwise (· ≤ ·) :=
    hnumbers ▸ List.pairwise_le_range' 1
  exact List.pairwise_map.1 hsorted

/-- Entries of one sequence are told apart by their numbers. -/
theorem eq_of_number_eq {fs : List Factory} {a b : Registered} (ha : a ∈ numbered fs)
    (hb : b ∈ numbered fs) (h : a.number = b.number) : a = b := by
  have hfactory : a.factory = b.factory := by
    rw [mem_numbered] at ha hb
    rw [h, hb] at ha
    exact (Option.some.inj ha).symm
  cases a
  cases b
  simp_all

end Registered

/-! ## Registrations -/

namespace Registry

open Registered

theorem entries_register (r : Registry) (f : Factory) :
    (r.register f).entries.Perm (r.entries ++ [⟨f, r.count⟩]) :=
  Sorting.sort_perm before _

theorem sorted_register (r : Registry) (f : Factory) :
    (r.register f).entries.Pairwise fun a b => a.key ≤ b.key := by
  have hsorted : Sorting.Sorted before (r.register f).entries :=
    Sorting.sorted_sort (by simp only [notAfter_iff]; exact fun _ _ _ => le_trans)
      (by simp only [Bool.or_eq_true, notAfter_iff]; exact fun a b => le_total a.key b.key) _
  exact hsorted.imp notAfter_iff.1

variable (fs : List Factory)

theorem ofFactories_concat (f : Factory) :
    ofFactories (fs ++ [f]) = (ofFactories fs).register f := List.foldl_append

theorem count_ofFactories : (ofFactories fs).count = fs.length := by
  induction fs using List.reverseRecOn with
  | nil => rfl
  | append_singleton fs f ih =>
    rw [ofFactories_concat, List.length_append, List.length_singleton, ← ih]
    rfl

theorem entries_perm : (ofFactories fs).entries.Perm (numbered fs) := by
  induction fs using List.reverseRecOn with
  | nil => exact .nil
  | append_singleton fs f ih =>
    rw [ofFactories_concat, numbered_concat, ← count_ofFactories]
    exact (entries_register _ f).trans (ih.append_right _)

theorem sorted_entries : (ofFactories fs).entries.Pairwise fun a b => a.key ≤ b.key := by
  induction fs using List.reverseRecOn with
  | nil => exact .nil
  | append_singleton fs f _ =>
    rw [ofFactories_concat]
    exact sorted_register _ f

/-! ## Order of consultation -/

theorem factories_perm : (ofFactories fs).factories.Perm fs := by
  simpa [factories, map_factory_numbered] using (entries_perm fs).map factory

theorem sorted_orders : (ofFactories fs).orders.Pairwise (· ≤ ·) := by
  simp only [orders, factories, List.map_map, List.pairwise_map]
  refine (sorted_entries fs).imp fun h => ?_
  rcases Prod.Lex.toLex_le_toLex.1 h with hlt | ⟨heq, -⟩
  · exact le_of_lt hlt
  · exact le_of_eq heq

/-- Factories of one order stay as they were registered. -/
theorem factories_stable (k : Int) :
    (ofFactories fs).factories.filter (·.order = k) = fs.filter (·.order = k) := by
  let ofOrder (e : Registered) : Bool := e.factory.order = k
  have hsorted : ((ofFactories fs).entries.filter ofOrder).Pairwise fun a b =>
      a.number ≤ b.number := by
    have hkeys := (sorted_entries fs).sublist (List.filter_sublist (p := ofOrder))
    refine hkeys.imp_of_mem fun {a b} ha hb h => ?_
    have hka : a.factory.order = k := by simpa [ofOrder] using (List.mem_filter.1 ha).2
    have hkb : b.factory.order = k := by simpa [ofOrder] using (List.mem_filter.1 hb).2
    rcases Prod.Lex.toLex_le_toLex.1 h with hlt | ⟨-, hle⟩
    · exact absurd (hka.trans hkb.symm) (ne_of_lt hlt)
    · exact hle
  have hentries : (ofFactories fs).entries.filter ofOrder = (numbered fs).filter ofOrder := by
    refine List.Perm.eq_of_pairwise (fun a b ha hb hab hba => ?_) hsorted
      ((sorted_numbered fs).sublist List.filter_sublist) ((entries_perm fs).filter ofOrder)
    exact eq_of_number_eq ((entries_perm fs).mem_iff.1 (List.mem_filter.1 ha).1)
      (List.mem_filter.1 hb).1 (le_antisymm hab hba)
  have hfilter (l : List Registered) :
      (l.map factory).filter (·.order = k) = (l.filter ofOrder).map factory := List.filter_map
  calc (ofFactories fs).factories.filter (·.order = k)
      = ((ofFactories fs).entries.filter ofOrder).map factory := hfilter _
    _ = ((numbered fs).map factory).filter (·.order = k) := by rw [hentries, hfilter]
    _ = fs.filter (·.order = k) := by rw [map_factory_numbered]

end Registry

/-! ## What is made -/

/-- The pointer to a node that is made for a request. -/
def Request.pointer (q : Request) (s : Store) (node : Node) : Pointer where
  visit := { node, occasion := s.now }
  above := q.above
  locale := q.locale

/-- Of the factories registered one after another, the one at place `i` makes the node for a
request, and every other that accepts the request has a greater order, or the same order and a later
place. -/
def Factory.IsFirst (fs : List Factory) (s : Store) (q : Request) (i : Nat) (node : Node) : Prop :=
  ∃ f, fs[i]? = some f ∧ f.make s q = some node ∧
    ∀ j g, fs[j]? = some g → (g.make s q).isSome → toLex (f.order, i) ≤ toLex (g.order, j)

/-- Only one factory is the first to accept. -/
theorem Factory.IsFirst.unique {fs : List Factory} {s : Store} {q : Request} {i j : Nat}
    {node node' : Node} (h : IsFirst fs s q i node) (h' : IsFirst fs s q j node') :
    node = node' := by
  obtain ⟨f, hf, hmakes, hleast⟩ := h
  obtain ⟨g, hg, hmakes', hleast'⟩ := h'
  have hle := hleast j g hg (by simp [hmakes'])
  have hge := hleast' i f hf (by simp [hmakes])
  obtain ⟨-, rfl⟩ := Prod.mk.inj (toLex.injective (le_antisymm hle hge))
  obtain rfl : f = g := Option.some.inj (hf.symm.trans hg)
  exact Option.some.inj (hmakes.symm.trans hmakes')

namespace Registry

open Registered

variable {fs : List Factory} {s : Store} {q : Request}

theorem node?_of_ne_null (h : q.value ≠ .null) (r : Registry) :
    r.node? s q = r.factories.findSome? fun f => f.make s q := by
  rw [node?]
  split
  · next hnull => exact absurd hnull h
  · rfl

/-- The first entry that answers has the least key of all that accept. -/
theorem exists_first {node : Node} (h : q.value ≠ .null)
    (hnode : (ofFactories fs).node? s q = some node) : ∃ i, Factory.IsFirst fs s q i node := by
  rw [node?_of_ne_null h, factories, List.findSome?_map, List.findSome?_eq_some_iff] at hnode
  obtain ⟨refused, e, others, hsplit, hmakes, hrefused⟩ := hnode
  have hmem (x : Registered) : x ∈ refused ++ e :: others ↔ fs[x.number]? = some x.factory := by
    rw [← hsplit, (entries_perm fs).mem_iff, mem_numbered]
  have hsorted := sorted_entries fs
  rw [hsplit] at hsorted
  refine ⟨e.number, e.factory, (hmem e).1 (by simp), hmakes, fun j g hg haccepts => ?_⟩
  rcases List.mem_append.1 ((hmem ⟨g, j⟩).2 hg) with hbefore | hfrom
  · have hnone : g.make s q = none := hrefused _ hbefore
    rw [hnone] at haccepts
    cases haccepts
  · rcases List.mem_cons.1 hfrom with rfl | hafter
    · exact le_rfl
    · exact List.rel_of_pairwise_cons (List.pairwise_append.1 hsorted).2.1 hafter

theorem node?_eq_none_iff (h : q.value ≠ .null) :
    (ofFactories fs).node? s q = none ↔ ∀ f ∈ fs, f.make s q = none := by
  rw [node?_of_ne_null h, List.findSome?_eq_none_iff]
  simp only [(factories_perm fs).mem_iff]

theorem node?_eq_some_iff (h : q.value ≠ .null) {node : Node} :
    (ofFactories fs).node? s q = some node ↔ ∃ i, Factory.IsFirst fs s q i node := by
  refine ⟨exists_first h, fun ⟨i, hfirst⟩ => ?_⟩
  cases hnode : (ofFactories fs).node? s q with
  | some node' =>
    obtain ⟨j, hfirst'⟩ := exists_first h hnode
    rw [hfirst'.unique hfirst]
  | none =>
    obtain ⟨f, hf, hmakes, -⟩ := hfirst
    rw [(node?_eq_none_iff h).1 hnode f (List.mem_of_getElem? hf)] at hmakes
    cases hmakes

/-- **Factories are asked in order, those of one order as they were registered.** Null needs no
factory; any other value is served by the first factory to accept it, and has no pointer exactly if
none accepts it. -/
theorem create_ofFactories (fs : List Factory) :
    ((ofFactories fs).factories.Perm fs ∧ (ofFactories fs).orders.Pairwise (· ≤ ·) ∧
        ∀ k, (ofFactories fs).factories.filter (·.order = k) = fs.filter (·.order = k)) ∧
      ∀ (s : Store) (q : Request),
        (q.value = .null → (ofFactories fs).create s q.name q.value q.locale q.above =
          .ok (q.pointer s (.null q.name))) ∧
        (q.value ≠ .null →
          (∀ p, (ofFactories fs).create s q.name q.value q.locale q.above = .ok p ↔
            ∃ i node, Factory.IsFirst fs s q i node ∧ p = q.pointer s node) ∧
          ∀ e, (ofFactories fs).create s q.name q.value q.locale q.above = .error e ↔
            (∀ f ∈ fs, f.make s q = none) ∧ e = .unresolvable (s.kind q.value)) := by
  refine ⟨⟨factories_perm fs, sorted_orders fs, factories_stable fs⟩, fun s q => ⟨fun hnull => ?_,
    fun hvalue => ⟨fun p => ?_, fun e => ?_⟩⟩⟩
  · obtain ⟨name, v, locale, above⟩ := q
    obtain rfl : v = .null := hnull
    rfl
  · rw [create]
    have hsome {node : Node} :
        (ofFactories fs).node? s q = some node ↔ ∃ i, Factory.IsFirst fs s q i node :=
      node?_eq_some_iff hvalue
    cases hnode : (ofFactories fs).node? s q with
    | none =>
      simp only [reduceCtorEq, false_iff, not_exists, not_and]
      exact fun i node hfirst => absurd (hnode.symm.trans (hsome.2 ⟨i, hfirst⟩)) nofun
    | some node =>
      simp only [Except.ok.injEq]
      constructor
      · rintro rfl
        obtain ⟨i, hfirst⟩ := hsome.1 hnode
        exact ⟨i, node, hfirst, rfl⟩
      · rintro ⟨i, node', hfirst, rfl⟩
        rw [hsome.2 ⟨i, hfirst⟩] at hnode
        obtain rfl := Option.some.inj hnode
        rfl
  · rw [create, ← node?_eq_none_iff hvalue]
    cases hnode : (ofFactories fs).node? s q with
    | none => simp [eq_comm]
    | some node => simp

end Registry

end PathQuery
