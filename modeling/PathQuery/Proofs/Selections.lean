import PathQuery.Proofs.Addresses
import PathQuery.Query.Compiled

/-!
# What paths select

A context that stands at the root of an object's graph, and the pointers that a location path
selects there.

* names: `Context.StartsAt`, `CompiledPath.selected`.
* **`isAddressed_of_selected`**: a path without attribute steps selects pointers that stand at
  addresses.
-/

namespace PathQuery

/-- The context was made for the graph of an object and stands at its root. -/
structure Context.StartsAt (ctx : Context) (root : Holder) : Prop where
  here : ctx.here = ctx.env.root
  node : ctx.env.root.node = root.value.node none
  above : ctx.env.root.above = []

/-- A new context stands at the root of its graph. -/
theorem Context.startsAt_new {w w' : World} {root : Holder} {ctx : Context}
    (hr : w.engine.registry = .standard)
    (h : (Context.new root.value).result w = (.ok ctx, w')) : ctx.StartsAt root := by
  rw [Context.new, Run.result_bind, Run.result_get] at h
  dsimp only at h
  have hroot : (Run.read fun r s => r.root s root.value w.engine.settings.locale).result w =
      (.ok { visit := { node := root.value.node none, occasion := w.store.tick.now },
             locale := w.engine.settings.locale }, { w with store := w.store.tick }) := by
    rw [Run.read, Run.result_act, hr, Action.result_read, Registry.root,
      Registry.create_standard _ _ _ _ (by cases root <;> simp [Holder.value])]
  rw [Run.result_bind, hroot] at h
  dsimp only at h
  rw [Run.result_bind] at h
  split at h
  · rw [Run.result_pure, Prod.mk.injEq, Except.ok.injEq] at h
    obtain ⟨rfl, -⟩ := h
    exact ⟨rfl, rfl, rfl⟩
  · simp at h

namespace CompiledPath

variable {ctx : Context} {c : CompiledPath} {s : Store} {root : Holder} {p : Pointer}
variable {start : Start} {steps : List Step}

/-- All nodes of the expression. -/
def selected (ctx : Context) (r : Registry) (c : CompiledPath) : Action (List Pointer) := do
  let n ← c.nodes ctx r
  Action.read fun _ => n.all

/-- The nodes of a path are those of a walk from the root. -/
theorem result_nodes_of_here (r : Registry) (hhere : ctx.here = ctx.env.root)
    (hc : c.expr.value = .path start steps) (hstart : ∀ e, start ≠ .value e) (s : Store) :
    ∃ o, (c.nodes ctx r).result s =
      (.ok (ctx.env.walk r steps o s (.ofList [ctx.env.root])), s) := by
  refine ⟨(s.now.part 0).part 1, ?_⟩
  have hnodes : (ctx.env.startNodes r start
      ({ node := ctx.here, occasion := s.now.part 0 : Focus }.part 0)).result s =
        (.ok (.ofList [ctx.env.root]), s) := by
    cases start with
    | here => simp [Environment.startNodes, Focus.part, hhere]
    | root => simp [Environment.startNodes]
    | value e => exact absurd rfl (hstart e)
  simp only [nodes, Environment.begin, hc, Action.result_bind, Action.result_get,
    Environment.compute, hnodes]
  simp [Environment.traverse]

theorem result_nodes (r : Registry) (hctx : ctx.StartsAt root)
    (hc : c.expr.value = .path start steps) (hstart : ∀ e, start ≠ .value e) (s : Store) :
    ∃ o, (c.nodes ctx r).result s =
      (.ok (ctx.env.walk r steps o s (.ofList [ctx.env.root])), s) :=
  c.result_nodes_of_here r hctx.here hc hstart s

end CompiledPath

namespace Pointer

variable {s : Store} {root : Holder} {p q : Pointer}

/-- **What a path without attribute steps selects stands at an address.** -/
theorem isAddressed_of_selected {ctx : Context} {c : CompiledPath} {start : Start}
    {steps : List Step} {a : Search} {t : Store} (hctx : ctx.StartsAt root)
    (hc : c.expr.value = .path start steps) (hstart : ∀ e, start ≠ .value e)
    (hsteps : ∀ step ∈ steps, step.axis ≠ .attribute)
    (ha : (c.nodes ctx .standard).result s = (.ok a, t)) (hp : p ∈ a.nodes.items) :
    IsAddressed s root p ∧ t = s := by
  obtain ⟨o, hnodes⟩ := c.result_nodes .standard hctx hc hstart s
  rw [hnodes, Prod.mk.injEq, Except.ok.injEq] at ha
  obtain ⟨rfl, rfl⟩ := ha
  refine ⟨Environment.kept_walk (fun o step hstep => ?_) (fun q hq => ?_) hp, rfl⟩
  · rw [isAddressed_congr (.on s o)]
    exact (kept_isAddressed _ _).along (hsteps step hstep)
  · obtain rfl := List.mem_singleton.1 (by simpa using hq)
    refine ⟨[], ?_⟩
    rw [nodes_eq, hctx.node, hctx.above]
    exact .root

end Pointer

end PathQuery
