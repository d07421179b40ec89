import PathQuery.Proofs.Selections

/-!
# Resolving addresses

A printed address without nested items is a simple path. Resolved from the root, it leads back to
the chain that it was printed for.

* names: `Segment.IsSimple`, `Segment.simple`, `simplePath?_segments`.
* **`resolve_address`**, **`getPointer_address`**.
-/

namespace PathQuery

/-! ## Simple steps -/

/-- No name is the wildcard. -/
theorem QName.isWildcard_bare {name : String} (hname : Grammar.IsName name) :
    (QName.bare name).isWildcard = false := by
  have hstar : name ≠ "*" := by
    intro h
    have : '*' ∉ name.toList := Grammar.not_mem_of_isOutside hname (by decide)
    rw [h] at this
    exact this (by decide)
  simpa [QName.isWildcard, QName.bare] using hstar

namespace Segment

/-- The step has one number at most. -/
def IsSimple (g : Segment) : Prop := g.places.length ≤ 1

/-- The slot that a simple step names. -/
def simple (g : Segment) : SimpleStep :=
  ⟨.bare g.name, false, g.places.head?.map fun n => .number (Number.ofNat n)⟩

theorem simple?_step {g : Segment} (hname : Grammar.IsName g.name) (hg : g.IsSimple) :
    g.step.simple? = some g.simple := by
  have hpredicates : Expr.anyDependsOnContext (g.places.map fun n => .number (Number.ofNat n)) =
      false := by
    induction g.places with
    | nil => rfl
    | cons n places ih => simp [Expr.anyDependsOnContext, Expr.dependsOnContext, ih]
  rw [IsSimple] at hg
  simp [step, Step.simple?, Step.isSimple, QName.isWildcard_bare hname, hpredicates, hg, simple]

end Segment

theorem simplePath?_segments {gs : List Segment} (hgs : ∀ g ∈ gs, Grammar.IsName g.name)
    (hsimple : ∀ g ∈ gs, g.IsSimple) :
    simplePath? .root (gs.map Segment.step) = some (true, gs.map Segment.simple) := by
  have hsteps : (gs.map Segment.step).mapM Step.simple? = some (gs.map Segment.simple) := by
    induction gs with
    | nil => rfl
    | cons g gs ih =>
      rw [List.map_cons, List.mapM_cons,
        Segment.simple?_step (hgs g (by simp)) (hsimple g (by simp)),
        ih (fun g hg => hgs g (by simp [hg])) fun g hg => hsimple g (by simp [hg])]
      rfl
  simp [simplePath?, hsteps]

/-! ## Resolving -/

/-- The nodes of a slot exist. -/
theorem Node.isActual_of_mem_slotNodes {s : Store} {h : Holder} {name : String} {v : Value}
    {index : Index} (hentry : (s.slots h).get? name = some v)
    (hnode : .slot h (.bare name) index false ∈ s.slotNodes h name v) :
    (Node.slot h (.bare name) index false).isActual s = true := by
  rw [Store.mem_slotNodes_iff] at hnode
  split at hnode
  · subst hnode
    rfl
  · next items hitems =>
    obtain ⟨i, hi, rfl⟩ := hnode
    obtain ⟨l, hl, rfl⟩ := Store.items?_eq_some_iff.1 hitems
    have hbase : (Node.slot h (.bare name) (.element i) false).base s = v := by
      rw [Node.base, ← Store.slot_eq hentry]
      rfl
    simp [Node.isActual, Node.inRange, Node.index, Node.length, hbase, hl, hi]

namespace Addressed

variable {s : Store} {root : Holder} {n : Node} {ns : List Node} {gs : List Segment}

/-- A step that leads to a list has a number. -/
theorem places_ne_nil {name : String} {places : List Nat} {l : Nat}
    (h : Addressed s root (n :: ns) (gs ++ [⟨name, places⟩])) (hend : n.end? s = some (.list l)) :
    places ≠ [] := by
  generalize hgs : gs ++ [(⟨name, places⟩ : Segment)] = steps at h
  cases h with
  | root => simp at hgs
  | @slot _ _ _ h key v index _ _ hentry hnode =>
    obtain ⟨-, hgs⟩ := List.append_inj' hgs rfl
    simp only [List.cons.injEq, Segment.mk.injEq, and_true] at hgs
    rw [Store.mem_slotNodes_iff] at hnode
    split at hnode
    · next hitems =>
      subst hnode
      rw [Node.end?_slot, Node.immediate_slot_whole hentry] at hend
      rw [Store.items?, Store.unwrap, Store.unwrapUpTo_of_endUpTo? (by decide) hend] at hitems
      simp at hitems
    · obtain ⟨i, -, rfl⟩ := hnode
      simp [hgs.2, Index.places]
  | item =>
    obtain ⟨-, hgs⟩ := List.append_inj' hgs rfl
    simp only [List.cons.injEq, Segment.mk.injEq, and_true] at hgs
    simp [hgs.2]

/-- What stands at an address exists. -/
theorem isActual (h : Addressed s root (n :: ns) gs) : n.isActual s = true := by
  cases h with
  | root => cases root <;> rfl
  | slot _ _ hentry hnode => exact Node.isActual_of_mem_slotNodes hentry hnode
  | item _ _ hi => simp [Node.isActual, Node.inRange, Node.index, Node.length, hi]

end Addressed

namespace Environment

variable {env : Environment} {s : Store} {root : Holder} {p q : Pointer} {o : Occasion}

/-- Slots are resolved one after another. -/
theorem resolve_append {xs : List SimpleStep} {t u : Store}
    (h : (env.resolve .standard o p xs).result t = (.ok q, u)) :
    ∃ o', ∀ ys, (env.resolve .standard o p (xs ++ ys)).result t =
      (env.resolve .standard o' q ys).result u := by
  induction xs generalizing o p t with
  | nil =>
    simp only [resolve, Action.result_pure, Prod.mk.injEq, Except.ok.injEq] at h
    obtain ⟨rfl, rfl⟩ := h
    exact ⟨o, fun _ => rfl⟩
  | cons x xs ih =>
    rw [resolve, Action.result_bind_eq_ok_iff] at h
    obtain ⟨next, v, hnext, h⟩ := h
    obtain ⟨o', ho'⟩ := ih h
    exact ⟨o', fun ys => by rw [List.cons_append, resolve, Action.result_bind_ok hnext, ho']⟩

variable (env) in
/-- One slot that exists. -/
theorem resolveStep_slot {h : Holder} {name : String} {v : Value} {index : Index}
    (hp : p.node.IsPlain) (hend : p.node.end? s = some h.value)
    (hentry : (s.slots h).get? name = some v)
    (hnode : .slot h (.bare name) index false ∈ s.slotNodes h name v)
    (hplaces : ∀ n ∈ index.places, n ≤ 2 ^ 53) :
    ∃ q, (env.resolveStep .standard o p (Segment.simple ⟨name, index.places⟩)).result s =
      (.ok q, s) ∧ q.nodes = .slot h (.bare name) index false :: p.nodes := by
  have hgraph := Store.SameGraph.on s o
  have hslot : slotOrMissing .standard p (.bare name) false (s.on o) =
      .ok (p.child o (.slot h (.bare name) .whole false)) := by
    have hvalue : p.value (s.on o) .standard = .ok h.value :=
      (Pointer.value_eq_ok_iff hp).2 (by rwa [hgraph.end?])
    have hhas : ((s.on o).slots h).has name = true := by
      rw [hgraph.slots]
      exact Table.has_iff_get?.2 ⟨v, hentry⟩
    rw [slotOrMissing, Pointer.slot?_eq hp, hvalue]
    simp only [Except.ok_bind, Holder.holder?_value, QName.text, QName.bare, hhas]
    rfl
  cases index with
  | whole =>
    refine ⟨p.child o (.slot h (.bare name) .whole false), ?_, rfl⟩
    rw [resolveStep, Action.result_bind, Action.result_read]
    simp [Segment.simple, hslot, Index.places]
  | element i =>
    obtain ⟨i, rfl⟩ : ∃ k : Nat, i = k := by
      rw [Store.mem_slotNodes_iff] at hnode
      split at hnode
      · simp at hnode
      · obtain ⟨k, -, hk⟩ := hnode
        exact ⟨k, by simpa using hk⟩
    have hnumber : Number.roundToInt (Number.ofNat (i + 1)) - 1 = i := by
      rw [Number.roundToInt_ofNat (hplaces _ (by simp [Index.places]))]
      omega
    obtain ⟨q, hq⟩ : ∃ q, (p.child o (.slot h (.bare name) .whole false)).atIndex? (s.on o)
        (.element i) = some q := ⟨_, rfl⟩
    refine ⟨q, ?_, ?_⟩
    · rw [resolveStep, Action.result_bind, Action.result_read]
      simp only [Segment.simple, hslot, Index.places, List.head?_cons, Option.map_some, compute,
        Action.result_bind, Action.result_pure, Action.result_liftM, Action.result_get,
        Outcome.all, elementOf, Pointer.node_child, Node.index, if_true]
      simp [hnumber, hq]
    · obtain ⟨node, hnode, hq⟩ := Pointer.nodes_atIndex? hq
      obtain rfl := Option.some.inj hnode
      exact hq

variable (env) in
/-- **A printed address without nested items is resolved to its chain.** -/
theorem resolve_address {ns : List Node} {gs : List Segment} (h : Addressed s root ns gs)
    (hsimple : ∀ g ∈ gs, g.IsSimple) (hplaces : ∀ g ∈ gs, ∀ n ∈ g.places, n ≤ 2 ^ 53)
    (hp : p.nodes = [root.value.node none]) :
    ∃ q, (env.resolve .standard o p (gs.map Segment.simple)).result s = (.ok q, s) ∧
      q.nodes = ns := by
  induction h with
  | root => exact ⟨p, rfl, hp⟩
  | @slot n ns gs h name v index hn hend hentry hnode ih =>
    obtain ⟨q, hq, hnodes⟩ := ih (fun g hg => hsimple g (List.mem_append_left _ hg))
      fun g hg => hplaces g (List.mem_append_left _ hg)
    obtain ⟨o', hrest⟩ := resolve_append hq
    have hqn : q.node = n := by
      rw [Pointer.nodes_eq] at hnodes
      exact (List.cons.inj hnodes).1
    obtain ⟨q', hq', hnodes'⟩ := resolveStep_slot env (o := o'.part 0) (p := q)
      (hqn ▸ hn.isPlain) (hqn ▸ hend) hentry hnode
      (hplaces ⟨name, index.places⟩ (List.mem_append_right _ (by simp)))
    refine ⟨q', ?_, by rw [hnodes', hnodes]⟩
    rw [List.map_append, hrest, List.map_cons, List.map_nil, resolve, Action.result_bind_ok hq']
    rfl
  | item hn hend _ _ =>
    have hne := hn.places_ne_nil hend
    have hlength := hsimple _ (List.mem_append_right _ (List.mem_singleton_self _))
    rw [Segment.IsSimple, List.length_append, List.length_singleton] at hlength
    exact absurd (List.length_eq_zero_iff.1 (by omega)) hne

end Environment

/-- **A printed address without nested items is the address of its node**, in strict contexts
too. -/
theorem CompiledPath.getPointer_address {ctx : Context} {c : CompiledPath} {s : Store}
    {root : Holder} {ns : List Node} {gs : List Segment} (hctx : ctx.StartsAt root)
    (hc : c.expr.value = .path .root (gs.map Segment.step)) (h : Addressed s root ns gs)
    (hgs : ∀ g ∈ gs, Grammar.IsName g.name) (hsimple : ∀ g ∈ gs, g.IsSimple)
    (hplaces : ∀ g ∈ gs, ∀ n ∈ g.places, n ≤ 2 ^ 53) :
    ∃ q, (c.getPointer ctx .standard).result s = (.ok q, s) ∧ q.nodes = ns := by
  have hroot : ctx.env.root.nodes = [root.value.node none] := by
    rw [Pointer.nodes_eq, hctx.node, hctx.above]
    rfl
  obtain ⟨q, hq, hnodes⟩ := Environment.resolve_address ctx.env (o := s.now.part 0) h
    hsimple hplaces hroot
  have hactual : q.node.isActual s = true := by
    rw [← hnodes, Pointer.nodes_eq] at h
    exact h.isActual
  refine ⟨q, ?_, hnodes⟩
  rw [getPointer, single, Environment.single, hc]
  simp [Action.result_bind, simplePath?_segments hgs hsimple, hq, hactual]

end PathQuery
