import Mathlib.Data.List.Forall2
import PathQuery.Action
import PathQuery.Engine

/-!
# Results

What computations that may fail come to, step by step: plain results, actions on a store and runs
in a world.

* names: `Except.bind_eq_ok_iff`, `Except.map_eq_ok_iff`, `Except.mapM_eq_ok_iff`; `Action.result`,
  `Run.result`.
* The laws of `Action.result` and `Run.result` evaluate an action or run from its beginning.
-/

namespace PathQuery

/-! ## Plain results -/

namespace Except

universe u

variable {ε : Type u} {α β : Type u}

@[simp] theorem ok_bind (a : α) (f : α → Except ε β) : (Except.ok a >>= f) = f a := rfl

@[simp] theorem error_bind (e : ε) (f : α → Except ε β) :
    ((Except.error e : Except ε α) >>= f) = .error e := rfl

@[simp] theorem map_ok (f : α → β) (a : α) : f <$> (Except.ok a : Except ε α) = .ok (f a) := rfl

@[simp] theorem map_error (f : α → β) (e : ε) :
    f <$> (Except.error e : Except ε α) = .error e := rfl

@[simp] theorem pure_eq_ok (a : α) : (pure a : Except ε α) = .ok a := rfl

@[simp] theorem throw_eq_error (e : ε) : (throw e : Except ε α) = .error e := rfl

theorem bind_eq_ok_iff {x : Except ε α} {f : α → Except ε β} {b : β} :
    (x >>= f) = .ok b ↔ ∃ a, x = .ok a ∧ f a = .ok b := by
  cases x <;> simp

theorem map_eq_ok_iff {x : Except ε α} {f : α → β} {b : β} :
    f <$> x = .ok b ↔ ∃ a, x = .ok a ∧ f a = b := by
  cases x <;> simp

theorem mapM_eq_ok_iff {f : α → Except ε β} {as : List α} {bs : List β} :
    as.mapM f = .ok bs ↔ List.Forall₂ (fun a b => f a = .ok b) as bs := by
  induction as generalizing bs with
  | nil => cases bs <;> simp
  | cons a as ih =>
    rw [List.mapM_cons, bind_eq_ok_iff]
    simp only [bind_eq_ok_iff, ih, pure_eq_ok]
    constructor
    · rintro ⟨b, hb, bs', hbs, h⟩
      cases h
      exact .cons hb hbs
    · rintro (_ | ⟨hb, hbs⟩)
      exact ⟨_, hb, _, hbs, rfl⟩

theorem mem_flatten_of_mapM {f : α → Except ε (List β)} {as : List α} {bss : List (List β)}
    (h : as.mapM f = .ok bss) {b : β} :
    b ∈ bss.flatten ↔ ∃ a ∈ as, ∃ bs, f a = .ok bs ∧ b ∈ bs := by
  rw [mapM_eq_ok_iff] at h
  induction h with
  | nil => simp
  | cons ha _ ih => simp [ih, ha]

end Except

/-! ## Actions -/

namespace Action

variable {α β : Type}

/-- What an action gives and the store that it leaves. -/
def result (a : Action α) (s : Store) : Except PathError α × Store := a.run.run s

@[simp] theorem result_pure (a : α) (s : Store) : (pure a : Action α).result s = (.ok a, s) := rfl

@[simp] theorem result_throw (e : PathError) (s : Store) :
    (throw e : Action α).result s = (.error e, s) := rfl

@[simp] theorem result_get (s : Store) : (get : Action Store).result s = (.ok s, s) := rfl

@[simp] theorem result_set (s t : Store) : (set t : Action Unit).result s = (.ok (), t) := rfl

@[simp] theorem result_change (f : Store → Store) (s : Store) :
    (change f).result s = (.ok (), f s) := rfl

theorem result_bind (a : Action α) (f : α → Action β) (s : Store) :
    (a >>= f).result s =
      match a.result s with
      | (.ok x, t) => (f x).result t
      | (.error e, t) => (.error e, t) := by
  show ((ExceptT.run (a >>= f)).run s) = _
  rw [ExceptT.run_bind, StateT.run_bind]
  simp only [result]
  cases h : (a.run.run s) with
  | mk x t => cases x <;> rfl

@[simp] theorem result_read (f : Store → Except PathError α) (s : Store) :
    (read f).result s = (f s, s) := by
  rw [read, result_bind, result_get]
  cases h : f s <;> simp [h]

@[simp] theorem result_liftM (x : Except PathError α) (s : Store) :
    (liftM x : Action α).result s = (x, s) := by
  cases x <;> rfl

theorem result_map (f : α → β) (a : Action α) (s : Store) :
    (f <$> a).result s = (f <$> (a.result s).1, (a.result s).2) := by
  rw [map_eq_pure_bind, result_bind]
  rcases a.result s with ⟨x | x, t⟩ <;> rfl

theorem peek_eq (a : Action α) (s : Store) : a.peek s = (a.result s).1 := rfl

/-- If the first part succeeds, the action goes on with what it gives. -/
theorem result_bind_ok {a : Action α} {f : α → Action β} {s t : Store} {x : α}
    (h : a.result s = (.ok x, t)) : (a >>= f).result s = (f x).result t := by
  rw [result_bind, h]

theorem result_bind_error {a : Action α} {f : α → Action β} {s t : Store} {e : PathError}
    (h : a.result s = (.error e, t)) : (a >>= f).result s = (.error e, t) := by
  rw [result_bind, h]

theorem result_bind_eq_ok_iff {a : Action α} {f : α → Action β} {s u : Store} {y : β} :
    (a >>= f).result s = (.ok y, u) ↔
      ∃ x t, a.result s = (.ok x, t) ∧ (f x).result t = (.ok y, u) := by
  rw [result_bind]
  rcases h : a.result s with ⟨x | x, t⟩ <;> simp

/-- Both hypotheses can be decided by running the action. -/
theorem exists_result_ok {a : Action α} {s : Store} {P : α → Store → Prop}
    (hok : (a.result s).1.toOption.isSome = true)
    (h : ∀ x ∈ (a.result s).1.toOption, P x (a.result s).2) :
    ∃ x t, a.result s = (.ok x, t) ∧ P x t := by
  generalize a.result s = made at hok h
  rcases made with ⟨e | x, t⟩
  · cases hok
  · exact ⟨x, t, rfl, h x rfl⟩

end Action

/-! ## Runs -/

namespace Run

variable {α β : Type}

/-- What a run gives and the world that it leaves. -/
def result (a : Run α) (w : World) : Except PathError α × World := a.run.run w

@[simp] theorem result_pure (a : α) (w : World) : (pure a : Run α).result w = (.ok a, w) := rfl

@[simp] theorem result_get (w : World) : (get : Run World).result w = (.ok w, w) := rfl

theorem result_bind (a : Run α) (f : α → Run β) (w : World) :
    (a >>= f).result w =
      match a.result w with
      | (.ok x, t) => (f x).result t
      | (.error e, t) => (.error e, t) := by
  show ((ExceptT.run (a >>= f)).run w) = _
  rw [ExceptT.run_bind, StateT.run_bind]
  simp only [result]
  cases h : (a.run.run w) with
  | mk x t => cases x <;> rfl

theorem result_bind_ok {a : Run α} {f : α → Run β} {w w' : World} {x : α}
    (h : a.result w = (.ok x, w')) : (a >>= f).result w = (f x).result w' := by
  rw [result_bind, h]

theorem result_bind_eq_ok_iff {a : Run α} {f : α → Run β} {w w'' : World} {y : β} :
    (a >>= f).result w = (.ok y, w'') ↔
      ∃ x w', a.result w = (.ok x, w') ∧ (f x).result w' = (.ok y, w'') := by
  rw [result_bind]
  rcases h : a.result w with ⟨x | x, w'⟩ <;> simp

/-- Both hypotheses can be decided by running. -/
theorem exists_result_ok {a : Run α} {w : World} {P : α → World → Prop}
    (hok : (a.result w).1.toOption.isSome = true)
    (h : ∀ x ∈ (a.result w).1.toOption, P x (a.result w).2) :
    ∃ x w', a.result w = (.ok x, w') ∧ P x w' := by
  generalize a.result w = made at hok h
  rcases made with ⟨e | x, w'⟩
  · cases hok
  · exact ⟨x, w', rfl, h x rfl⟩

theorem result_act (f : Registry → Action α) (w : World) :
    (act f).result w =
      (((f w.engine.registry).result w.store.tick).1,
        { w with store := ((f w.engine.registry).result w.store.tick).2 }) := rfl

theorem result_read (f : Registry → Store → Except PathError α) (w : World) :
    (read f).result w =
      (f w.engine.registry w.store.tick, { w with store := w.store.tick }) := by
  rw [read, result_act, Action.result_read]

theorem result_compile (source : String) (w : World) :
    (compile source).result w =
      ((w.engine.compile (fun id => w.held.contains id) source).1,
        { w with engine := (w.engine.compile (fun id => w.held.contains id) source).2 }) := rfl

end Run

end PathQuery
