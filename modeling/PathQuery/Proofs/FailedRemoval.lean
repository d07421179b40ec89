import PathQuery.Proofs.FailedCreation

/-!
# What a failed bulk removal leaves

Bulk removal takes nodes one at a time, the last in document order first, and stops at the first
that it cannot find again or that is refused. The nodes taken by then are gone, and no more.

* names: `CompiledPath.selection`, `CompiledPath.removeInTurn`, `CompiledPath.LeftByRemoval`.
* `remove_clean`: one node is removed, or nothing is changed.
* **`removeInTurn_failed`**, **`removeAll_failed`**: what a failed bulk removal leaves.
-/

namespace PathQuery

/-! ## One node -/

namespace Pointer

open PathQuery.Action PathQuery.Environment

variable {env : Environment} {s : Store} {p : Pointer}

theorem eraseSlot_clean (h : Holder) (name : String) : (eraseSlot h name).Clean env s := by
  refine clean_read_bind fun t _ => ?_
  exact clean_of_ok (result_set s t)

theorem removeSlot_clean (h : Holder) (name : QName) : (p.removeSlot h name).Clean env s := by
  refine place_clean p "property" fun i => ?_
  cases i with
  | none => exact eraseSlot_clean h name.text
  | some i =>
    refine clean_get_bind ?_
    split
    · exact clean_of_ok (result_change ..)
    · split
      · exact eraseSlot_clean h name.text
      · exact clean_of_ok (result_pure ..)

theorem removeVariable_clean (scope : Nat) (name : QName) :
    (p.removeVariable scope name).Clean env s := by
  refine place_clean p "variable" fun i => ?_
  cases i with
  | none => exact clean_of_ok (result_change ..)
  | some i =>
    refine clean_get_bind ?_
    split
    · exact clean_of_ok (result_change ..)
    · exact clean_of_ok (result_pure ..)

theorem removeAt_clean (locale : Locale) (visit : Visit) (above : List Visit) :
    (removeAt locale visit above).Clean env s := by
  -- Only a value looks at the chain above it; a link decides by itself.
  unfold removeAt
  cases hnode : visit.node with
  | slot h name index isAttribute => exact removeSlot_clean h name
  | missing name index isAttribute => exact clean_of_ok (result_pure ..)
  | var scope name index => exact removeVariable_clean scope name
  | cell id name => exact clean_of_ok (result_change ..)
  | element | markupText => exact clean_of_error rfl
  | items list name index =>
    cases index with
    | element i =>
      dsimp only
      split
      · exact clean_of_ok (result_change ..)
      · exact clean_of_ok (result_pure ..)
    | whole =>
      cases above with
      | nil => exact clean_of_error rfl
      | cons parent above => exact removeAt_clean locale parent above
  | map | bean | leaf =>
    cases above with
    | nil => exact clean_of_error rfl
    | cons parent above => exact removeAt_clean locale parent above
  | null =>
    cases above with
    | nil => exact clean_of_ok (result_pure ..)
    | cons parent above => exact removeAt_clean locale parent above

/-- **A node is removed, or nothing is changed.** -/
theorem remove_clean : p.remove.Clean env s := removeAt_clean p.locale p.visit p.above

end Pointer

theorem Store.unchanged_tick (s : Store) : s.Unchanged s.tick := fun o h => by
  cases o <;> exact ⟨h, rfl⟩

namespace CompiledPath

open Environment

variable {ctx : Context} {c : CompiledPath} {w w' : World} {e : PathError}

/-- A node is found and removed, or nothing is changed. -/
theorem remove_clean (r : Registry) (s : Store) : (c.remove ctx r).Clean ctx.env s := by
  intro e t h
  have hfind := getPointer_keeps (c := c) (r := r) ctx.env.functionsKeep_touches s
  rw [remove, Action.result_bind] at h
  split at h
  · next p u hp =>
    rw [hp] at hfind
    exact hfind.trans (Pointer.remove_clean e t h)
  · next e' u hp =>
    rw [hp] at hfind
    cases h
    exact hfind

/-! ## Nodes in turn -/

/-- The nodes that an expression selects, in document order. -/
def selection (ctx : Context) (c : CompiledPath) : Run (List Pointer) :=
  Run.act fun r => do
    let n ← c.nodes ctx r
    Action.read fun s => do Pointer.sortUnique s (← n.all)

/-- Removes nodes one after another, the first of them through its pointer. -/
def removeInTurn (ctx : Context) : List Pointer → Run Unit
  | [] => pure ()
  | first :: rest => do
    Run.act fun _ => first.remove
    removeByPath ctx rest

theorem removeAll_eq (ctx : Context) (c : CompiledPath) :
    c.removeAll ctx = c.selection ctx >>= fun selected => removeInTurn ctx selected.reverse := by
  rw [removeAll, selection]
  refine bind_congr fun selected => ?_
  cases selected.reverse <;> rfl

theorem removeByPath_cons (ctx : Context) (p : Pointer) (ps : List Pointer) :
    removeByPath ctx (p :: ps) = removeByPath ctx [p] >>= fun _ => removeByPath ctx ps := by
  simp only [removeByPath, bind_assoc, pure_bind]

/-- An action that fails cleanly fails cleanly in a world. -/
theorem touches_of_act {α : Type} {f : Registry → Action α}
    (hf : ∀ r s, (f r).Clean ctx.env s) (h : (Run.act f).result w = (.error e, w')) :
    ctx.env.Touches w.store w'.store := by
  rw [Run.result_act, Prod.mk.injEq] at h
  obtain ⟨he, rfl⟩ := h
  exact (touches_of_unchanged w.store.unchanged_tick).trans
    (hf _ _ e _ (Prod.ext he rfl))

/-- One node that is not removed is found again or not, and nothing is changed. -/
theorem touches_of_removeByPath {p : Pointer}
    (h : (removeByPath ctx [p]).result w = (.error e, w')) :
    ctx.env.Touches w.store w'.store := by
  rw [removeByPath, Run.result_bind_ok (Run.result_get w), Run.result_bind, Run.result_compile] at h
  split at h
  · next c v hc =>
    obtain ⟨-, rfl⟩ := Prod.mk.inj hc
    rw [Run.result_bind] at h
    split at h
    · cases h
    · next hact =>
      cases h
      have htouch : ctx.env.Touches _ w'.store := touches_of_act remove_clean hact
      exact htouch
  · next hc =>
    obtain ⟨-, rfl⟩ := Prod.mk.inj hc
    cases h
    exact .refl

/-- **A failure comes after the nodes before it are removed, and changes nothing by itself.** -/
theorem removeByPath_failed {ps : List Pointer}
    (h : (removeByPath ctx ps).result w = (.error e, w')) :
    ∃ done p rest w₁, ps = done ++ p :: rest ∧
      (removeByPath ctx done).result w = (.ok (), w₁) ∧
      (removeByPath ctx [p]).result w₁ = (.error e, w') ∧
      ctx.env.Touches w₁.store w'.store := by
  induction ps generalizing w with
  | nil => cases h
  | cons p ps ih =>
    rw [removeByPath_cons, Run.result_bind] at h
    split at h
    · next _ w₁ hp =>
      obtain ⟨done, q, rest, w₂, rfl, hdone, hq, htouch⟩ := ih h
      refine ⟨p :: done, q, rest, w₂, rfl, ?_, hq, htouch⟩
      rw [removeByPath_cons, Run.result_bind_ok hp, hdone]
    · next e' w₁ hp =>
      cases h
      exact ⟨[], p, ps, w, rfl, rfl, hp, touches_of_removeByPath hp⟩

theorem removeByPath_snoc {ps : List Pointer} {p : Pointer} {w₁ : World}
    (h : (removeByPath ctx ps).result w = (.ok (), w₁)) :
    (removeByPath ctx (ps ++ [p])).result w = (removeByPath ctx [p]).result w₁ := by
  induction ps generalizing w with
  | nil =>
    cases h
    rfl
  | cons q ps ih =>
    rw [removeByPath_cons, Run.result_bind] at h
    split at h
    · next _ w₂ hq =>
      rw [List.cons_append, removeByPath_cons, Run.result_bind_ok hq, ih h]
    · cases h

/-- **A failure leaves what removing the nodes before it leaves.** -/
theorem removeInTurn_failed {ps : List Pointer}
    (h : (removeInTurn ctx ps).result w = (.error e, w')) :
    ∃ done p rest w₁, ps = done ++ p :: rest ∧
      (removeInTurn ctx done).result w = (.ok (), w₁) ∧
      (removeInTurn ctx (done ++ [p])).result w = (.error e, w') ∧
      ctx.env.Touches w₁.store w'.store := by
  cases ps with
  | nil => cases h
  | cons first ps =>
    rw [removeInTurn, Run.result_bind] at h
    split at h
    · next _ w₁ hfirst =>
      obtain ⟨done, p, rest, w₂, rfl, hdone, hp, htouch⟩ := removeByPath_failed h
      refine ⟨first :: done, p, rest, w₂, rfl, ?_, ?_, htouch⟩
      · rw [removeInTurn, Run.result_bind_ok hfirst, hdone]
      · rw [List.cons_append, removeInTurn, Run.result_bind_ok hfirst, removeByPath_snoc hdone, hp]
    · next e' w₁ hfirst =>
      cases h
      have htouch : ctx.env.Touches w.store w'.store :=
        touches_of_act (fun _ _ => Pointer.remove_clean) hfirst
      refine ⟨[], first, ps, w, rfl, rfl, ?_, htouch⟩
      rw [List.nil_append, removeInTurn, Run.result_bind, hfirst]

/-! ## Bulk removal -/

/-- Selecting nodes changes nothing but what functions change. -/
theorem touches_of_selection {x : Except PathError (List Pointer)}
    (h : (c.selection ctx).result w = (x, w')) : ctx.env.Touches w.store w'.store := by
  have hkeeps := (nodes_keeps (c := c) (r := w.engine.registry)
    ctx.env.functionsKeep_touches).bind fun n => Action.keeps_read fun s => do
      Pointer.sortUnique s (← n.all)
  rw [selection, Run.result_act, Prod.mk.injEq] at h
  obtain ⟨-, rfl⟩ := h
  exact (touches_of_unchanged w.store.unchanged_tick).trans (hkeeps w.store.tick)

/-- What a bulk removal that fails leaves: the objects as they were, or without the nodes that it
had removed by then, all that come after the failing one in document order; and the changes that
functions make by themselves. -/
def LeftByRemoval (ctx : Context) (c : CompiledPath) (w : World) (e : PathError) (w' : World) :
    Prop :=
  ctx.env.Touches w.store w'.store ∨
    ∃ us w₀ done p rest w₁, (c.selection ctx).result w = (.ok us, w₀) ∧
      ctx.env.Touches w.store w₀.store ∧ us.reverse = done ++ p :: rest ∧ done ≠ [] ∧
      (removeInTurn ctx done).result w₀ = (.ok (), w₁) ∧
      (removeInTurn ctx (done ++ [p])).result w₀ = (.error e, w') ∧
      ctx.env.Touches w₁.store w'.store

/-- **A bulk removal that fails has removed the nodes before the one that fails, and no more.** -/
theorem removeAll_failed (h : (c.removeAll ctx).result w = (.error e, w')) :
    LeftByRemoval ctx c w e w' := by
  rw [removeAll_eq, Run.result_bind] at h
  split at h
  · next us w₀ hus =>
    have hselect := touches_of_selection hus
    obtain ⟨done, p, rest, w₁, hrev, hdone, hp, htouch⟩ := removeInTurn_failed h
    by_cases hnil : done = []
    · subst hnil
      cases hdone
      exact .inl (hselect.trans htouch)
    · exact .inr ⟨us, w₀, done, p, rest, w₁, hus, hselect, hrev, hnil, hdone, hp, htouch⟩
  · next e' w₁ hus =>
    cases h
    exact .inl (touches_of_selection hus)

/-! ### A key that is no name -/

/-- A map with a key that is no name before one that is. -/
def blanked : Store where
  maps := ⟨#[.ofList [("a b", .bool true), ("c", .bool false)]]⟩

/-- A strict context at the map, in a world with a new engine. -/
def blankedContext : Context :=
  let root : Pointer := { visit := { node := .map 0 none, occasion := {} } }
  { env := { root, locale := {}, lenient := false, own := { scope := 0 } }, here := root }

/-- The path to everything in the map. -/
def pathToBlanked : CompiledPath where
  source := "/*"
  expr := { id := 0, value := .path .root [.mk .child (.name (.bare "*")) []] }

/-- A new engine and the map. -/
def blankedWorld : World := { engine := .ofSettings {}, store := blanked }

/-- The key that is no name stays when the other one is gone. -/
theorem removeAll_failed_blanked : ∃ e w',
    (pathToBlanked.removeAll blankedContext).result blankedWorld = (.error e, w') ∧
      LeftByRemoval blankedContext pathToBlanked blankedWorld e w' := by
  obtain ⟨e, w', h⟩ : ∃ e w',
      (pathToBlanked.removeAll blankedContext).result blankedWorld = (.error e, w') :=
    ⟨_, _, by with_unfolding_all rfl⟩
  exact ⟨e, w', h, removeAll_failed h⟩

/-- A bulk removal fails, and still a key is gone afterwards. -/
theorem removeAll_changes_blanked :
    Grammar.parse "/*" = .ok pathToBlanked.expr.value ∧
      ∃ e w', (pathToBlanked.removeAll blankedContext).result blankedWorld = (.error e, w') ∧
        (blanked.maps.get 0).keys = ["a b", "c"] ∧ (w'.store.maps.get 0).keys = ["a b"] ∧
        ¬ blanked.Unchanged w'.store := by
  refine ⟨by with_unfolding_all rfl, _, _, by with_unfolding_all rfl, rfl,
    by with_unfolding_all rfl, fun h => ?_⟩
  have hkeys := congrArg Table.keys (Content.table.inj (h (.map 0) Nat.zero_lt_one).2)
  revert hkeys
  decide +kernel

end CompiledPath

end PathQuery
