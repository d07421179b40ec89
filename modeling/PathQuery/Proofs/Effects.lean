import Mathlib.Logic.Relation
import PathQuery.Proofs.FreshObjects
import PathQuery.Query.Compiled

/-!
# What evaluation does to a graph

Evaluation by itself only reads. Whatever an expression changes in a graph, a function that the
caller added has changed.

* names: `Action.Keeps`, `Action.Makes`, `Environment.FunctionsKeep`, `Environment.Touches`.
* A relation of stores that each function keeps is kept by whole evaluations, if it is reflexive and
  transitive.
* **`compute_keeps`**, **`single_keeps`**; `CompiledPath.getPointer_keeps`,
  `CompiledPath.creationTarget_keeps`.
* **`newObject_makes`**: there is an object for every empty slot.
* `Touches`: the most that functions and object factories can do to a graph by themselves.
  **`Touches.unchanged`**: nothing, if each of them changes nothing.
-/

namespace PathQuery

/-! ## Actions that keep a relation of stores -/

namespace Action

variable {α β : Type} {R : Store → Store → Prop} {a : Action α} {f : α → Action β}

/-- Whatever the action comes to, it leaves a store to which the one before it is related. -/
def Keeps (R : Store → Store → Prop) (a : Action α) : Prop := ∀ s, R s (a.result s).2

section Reflexive

variable [Std.Refl R]

theorem keeps_of_result {x : Store → Except PathError α} (h : ∀ s, a.result s = (x s, s)) :
    a.Keeps R := fun s => by
  rw [h s]
  exact refl s

theorem keeps_pure (x : α) : (pure x : Action α).Keeps R := keeps_of_result fun _ => rfl

theorem keeps_throw (e : PathError) : (throw e : Action α).Keeps R := keeps_of_result fun _ => rfl

theorem keeps_get : (get : Action Store).Keeps R := keeps_of_result fun _ => rfl

theorem keeps_read (g : Store → Except PathError α) : (read g).Keeps R :=
  keeps_of_result (result_read g)

theorem keeps_liftM (x : Except PathError α) : (liftM x : Action α).Keeps R :=
  keeps_of_result (result_liftM x)

end Reflexive

theorem Keeps.bind [IsTrans Store R] (ha : a.Keeps R) (hf : ∀ x, (f x).Keeps R) :
    (a >>= f).Keeps R := by
  intro s
  have hs := ha s
  rw [result_bind]
  split
  · next x t h =>
    rw [h] at hs
    exact trans_of R hs (hf x t)
  · next e t h =>
    rw [h] at hs
    exact hs

/-! ### Actions that do not fail -/

/-- The action comes to something, and leaves a store with the property. -/
def Makes (P : Store → Prop) (a : Action α) (s : Store) : Prop :=
  ∃ x t, a.result s = (.ok x, t) ∧ P t

section Makes

variable {P Q : Store → Prop} {s : Store}

theorem makes_pure (x : α) (h : P s) : (pure x : Action α).Makes P s := ⟨x, s, rfl, h⟩

theorem makes_lift {m : StateM Store α} (h : P (m.run s).2) : (liftM m : Action α).Makes P s :=
  ⟨(m.run s).1, (m.run s).2, rfl, h⟩

theorem makes_get_bind {f : Store → Action β} (h : (f s).Makes P s) : (get >>= f).Makes P s := h

theorem Makes.bind (ha : a.Makes P s) (hf : ∀ x t, P t → (f x).Makes Q t) :
    (a >>= f).Makes Q s := by
  obtain ⟨x, t, hx, ht⟩ := ha
  obtain ⟨y, u, hy, hu⟩ := hf x t ht
  exact ⟨y, u, by rw [result_bind_ok hx, hy], hu⟩

end Makes

end Action

/-! ## Evaluation -/

namespace Environment

open PathQuery.Action

variable {R : Store → Store → Prop} {r : Registry} {env : Environment}

/-- Every function that can be called keeps the relation. -/
def FunctionsKeep (env : Environment) (R : Store → Store → Prop) : Prop :=
  ∀ name n g, env.function? name n = some g → ∀ focus args, (g focus args).Keeps R

variable [IsPreorder Store R]

theorem call_keeps (h : env.FunctionsKeep R) (f : QName) (args : List Answer) (focus : Focus) :
    (env.call r f args focus).Keeps R := by
  rw [call]
  split
  · exact keeps_read _
  · split
    · next g hg => exact h f args.length g hg focus args
    · exact keeps_throw _

theorem traverse_keeps (o : Occasion) (x : Outcome) : (env.traverse r o x).Keeps R := by
  cases x with
  | nodes n => exact keeps_pure n
  | answer a => exact keeps_read _

theorem collect_keeps (o : Occasion) (x : Outcome) : (env.collect r o x).Keeps R :=
  (traverse_keeps o x).bind fun _ => keeps_read _

mutual

/-- **Evaluation keeps what the functions keep.** -/
theorem compute_keeps (h : env.FunctionsKeep R) (e : Expr) (focus : Focus) :
    (env.compute r e focus).Keeps R := by
  cases e with
  | literal | number =>
    rw [compute]
    exact keeps_pure _
  | «variable» name =>
    rw [compute]
    exact keeps_get.bind fun s => (keeps_read _).bind fun p => keeps_pure _
  | call f args =>
    rw [compute]
    exact (evaluateAll_keeps h args focus).bind fun as =>
      (call_keeps h f as focus).bind fun a => keeps_pure _
  | filter base predicates =>
    rw [compute]
    exact (compute_keeps h base _).bind fun x => (collect_keeps _ x).bind fun nodes =>
      (keeps_read _).bind fun kept => keeps_pure _
  | negate e =>
    rw [compute]
    exact (compute_keeps h e focus).bind fun x => (keeps_liftM _).bind fun a =>
      (keeps_read _).bind fun y => keeps_pure _
  | path start steps =>
    rw [compute]
    exact (startNodes_keeps h start _).bind fun nodes => keeps_get.bind fun s => keeps_pure _
  | binary op left right =>
    have hside {e : Expr} {focus : Focus} {α : Type} {k : Answer → Action α}
        (he : (env.compute r e focus).Keeps R) (hk : ∀ a, (k a).Keeps R) :
        (do let a ← (← env.compute r e focus).all; k a : Action α).Keeps R :=
      he.bind fun x => (keeps_liftM _).bind hk
    have hleft := compute_keeps h left (focus.part 0)
    have hright := compute_keeps h right (focus.part 1)
    cases op with
    | union =>
      rw [compute]
      exact hleft.bind fun x => (collect_keeps _ x).bind fun _ =>
        hright.bind fun y => (collect_keeps _ y).bind fun _ =>
          (keeps_read _).bind fun _ => keeps_pure _
    | or | and =>
      rw [compute]
      refine hside hleft fun a => keeps_get.bind fun s => ?_
      split
      · exact keeps_pure _
      · exact hside hright fun b => keeps_get.bind fun s => keeps_pure _
    | _ =>
      rw [compute]
      · exact hside hleft fun a => hside hright fun b => (keeps_read _).bind fun _ => keeps_pure _
      all_goals nofun

theorem evaluateAll_keeps (h : env.FunctionsKeep R) (es : List Expr) (focus : Focus) :
    (env.evaluateAll r es focus).Keeps R := by
  cases es with
  | nil =>
    rw [evaluateAll]
    exact keeps_pure _
  | cons e es =>
    rw [evaluateAll]
    exact (compute_keeps h e _).bind fun x => (keeps_liftM _).bind fun a =>
      (evaluateAll_keeps h es _).bind fun as => keeps_pure _

theorem startNodes_keeps (h : env.FunctionsKeep R) (start : Start) (focus : Focus) :
    (env.startNodes r start focus).Keeps R := by
  cases start with
  | here | root =>
    rw [startNodes]
    exact keeps_pure _
  | value e =>
    rw [startNodes]
    exact (compute_keeps h e focus).bind fun x => traverse_keeps _ x

end

theorem begin_keeps (h : env.FunctionsKeep R) (e : Expr) (focus : Focus) :
    (env.begin r e focus).Keeps R :=
  keeps_get.bind fun _ => compute_keeps h e _

/-! ### Single results -/

theorem resolveStep_keeps (h : env.FunctionsKeep R) (o : Occasion) (p : Pointer)
    (step : SimpleStep) : (env.resolveStep r o p step).Keeps R := by
  refine (keeps_read _).bind fun slot => ?_
  split
  · exact keeps_pure _
  · refine (compute_keeps h _ _).bind fun x => (keeps_liftM _).bind fun a =>
      keeps_get.bind fun s => ?_
    split
    · exact keeps_pure _
    · dsimp only
      split <;> exact keeps_pure _

theorem resolve_keeps (h : env.FunctionsKeep R) (o : Occasion) (p : Pointer)
    (steps : List SimpleStep) : (env.resolve r o p steps).Keeps R := by
  induction steps generalizing o p with
  | nil => exact keeps_pure p
  | cons step steps ih => exact (resolveStep_keeps h _ p step).bind fun q => ih _ q

/-- **Finding the one result of an expression keeps what the functions keep.** -/
theorem single_keeps (h : env.FunctionsKeep R) (e : Expr) (focus : Focus) :
    (env.single r e focus).Keeps R := by
  have hgeneral : (do
      let outcome ← env.begin r e focus
      Action.read fun _ => firstOf outcome : Action Single).Keeps R :=
    (begin_keeps h e focus).bind fun x => keeps_read _
  refine keeps_get.bind fun s => ?_
  split
  · exact (keeps_read _).bind fun p => keeps_pure _
  · split
    · exact (resolve_keeps h _ _ _).bind fun p => keeps_pure _
    · exact hgeneral
  · exact hgeneral

end Environment

/-! ## Compiled paths -/

namespace CompiledPath

open PathQuery.Action

variable {R : Store → Store → Prop} [IsPreorder Store R] {r : Registry} {ctx : Context}
variable {c : CompiledPath}

theorem single_keeps (h : ctx.env.FunctionsKeep R) : (c.single ctx r).Keeps R :=
  Environment.single_keeps h _ _

theorem getPointer_keeps (h : ctx.env.FunctionsKeep R) : (c.getPointer ctx r).Keeps R :=
  (single_keeps h).bind fun _ => keeps_read _

theorem getValue_keeps (h : ctx.env.FunctionsKeep R) : (c.getValue ctx r).Keeps R :=
  (single_keeps h).bind fun _ => (keeps_read _).bind fun _ => keeps_pure _

theorem nodes_keeps (h : ctx.env.FunctionsKeep R) : (c.nodes ctx r).Keeps R :=
  (Environment.begin_keeps h _ _).bind fun x => keeps_get.bind fun _ =>
    Environment.traverse_keeps _ x

theorem creationTarget_keeps (h : ctx.env.FunctionsKeep R) : (c.creationTarget ctx r).Keeps R := by
  rw [creationTarget]
  split
  · exact keeps_throw (.notCreatable c.source)
  · refine (single_keeps h).bind fun one => ?_
    split
    · exact keeps_pure _
    · exact keeps_throw _

/-- What is created is what the path leads to. -/
theorem single_of_creationTarget {q : Pointer} {s u : Store}
    (hq : (c.creationTarget ctx r).result s = (.ok q, u)) :
    (c.single ctx r).result s = (.ok (.pointer q), u) := by
  rw [creationTarget] at hq
  split at hq
  · cases hq
  · obtain ⟨one, t, hone, hq⟩ := Action.result_bind_eq_ok_iff.1 hq
    cases one with
    | pointer p =>
      rw [Action.result_pure, Prod.mk.injEq, Except.ok.injEq] at hq
      obtain ⟨rfl, rfl⟩ := hq
      exact hone
    | _ => cases hq

/-- Where a simple path starts in a context. -/
def startOf (ctx : Context) (isAbsolute : Bool) : Pointer :=
  if isAbsolute then ctx.env.root else ctx.here

section Simple

variable {start : Start} {steps : List Step} {isAbsolute : Bool} {slots : List SimpleStep}
variable {s t : Store}

/-- A simple path is resolved slot by slot. -/
theorem result_single_of_resolve {r : Registry} (hc : c.expr.value = .path start steps)
    (hpath : simplePath? start steps = some (isAbsolute, slots)) {x : Except PathError Pointer}
    (h : (ctx.env.resolve r (s.now.part 0) (startOf ctx isAbsolute) slots).result s = (x, t)) :
    (c.single ctx r).result s = (x.map .pointer, t) := by
  rw [startOf] at h
  rw [single, Environment.single, hc]
  simp only [Action.result_bind, Action.result_get, hpath, h]
  cases x <;> rfl

/-- The node to be created at a simple path is the one that the path is resolved to. -/
theorem result_creationTarget (hc : c.expr.value = .path start steps)
    (hpath : simplePath? start steps = some (isAbsolute, slots)) (s : Store) :
    (c.creationTarget ctx r).result s =
      (ctx.env.resolve r (s.now.part 0) (startOf ctx isAbsolute) slots).result s := by
  have hcreatable : c.isCreatable = true := by simp [isCreatable, hc, hpath]
  rcases hx : (ctx.env.resolve r (s.now.part 0) (startOf ctx isAbsolute) slots).result s with ⟨x, t⟩
  rw [creationTarget, hcreatable, if_neg (by simp), Action.result_bind,
    result_single_of_resolve hc hpath hx]
  cases x <;> rfl

end Simple

end CompiledPath

/-! ## What the caller's own code changes -/

/-- Whatever the factory is asked for, the store that it leaves is related to the one before. -/
def ObjectFactory.Keeps (R : Store → Store → Prop) (factory : ObjectFactory) : Prop :=
  ∀ parent name i s, R s ((factory parent name i).run s).2

/-- **There is an object for every empty slot.** A property that the factory, the makers of a bean
and a new map all keep still holds with it. -/
theorem Pointer.newObject_makes {P : Store → Prop} {factory : Option ObjectFactory} {p : Pointer}
    {h : Holder} {name : QName} {s : Store} (hs : P s)
    (hfactory : ∀ f ∈ factory, f.Keeps fun t u => P t → P u)
    (hmap : ∀ t, P t → P (t.addMap .empty).2)
    (hmaker : ∀ t id template, P t → h = .bean id →
      (t.beans.get id).makers.get? name.text = some template → P (template.fresh.run t).2) :
    (p.newObject factory h name).Makes P s := by
  have hempty {t : Store} (ht : P t) :
      (do pure (.map (← Action.make (·.addMap .empty))) : Action Value).Makes P t :=
    ⟨_, _, rfl, hmap t ht⟩
  unfold newObject
  dsimp only
  split
  all_goals refine Action.Makes.bind (P := P) ?_ fun made t ht => ?_
  case h_1.refine_1 f parent _ =>
    exact Action.makes_lift (hfactory f rfl parent name.name p.node.index.place? s hs)
  case h_2.refine_1 => exact Action.makes_pure none hs
  all_goals
    split
    · exact Action.makes_pure _ ht
    · refine Action.makes_get_bind ?_
      split
      · next template htemplate => exact Action.makes_lift (hmaker t _ _ ht rfl htemplate)
      · exact hempty ht
    · exact hempty ht

namespace Environment

variable {env : Environment} {s t : Store}

/-- One call of a function or of the factory, or something that leaves all objects alone. -/
inductive Touch (env : Environment) (s : Store) : Store → Prop
  | unchanged {t : Store} (h : s.Unchanged t) : Touch env s t
  | function {name : QName} {n : Nat} {g : Function} (h : env.function? name n = some g)
      (focus : Focus) (args : List Answer) : Touch env s ((g focus args).result s).2
  | factory {f : ObjectFactory} (h : env.factory? = some f) (parent : Pointer) (name : String)
      (i : Option Nat) : Touch env s ((f parent name i).run s).2

/-- What is different in a store, functions and the factory of the environment have changed. -/
def Touches (env : Environment) : Store → Store → Prop := Relation.ReflTransGen env.Touch

instance : IsPreorder Store env.Touches where
  refl _ := .refl
  trans _ _ _ := .trans

theorem touches_of_unchanged (h : s.Unchanged t) : env.Touches s t := .single (.unchanged h)

theorem functionsKeep_touches : env.FunctionsKeep env.Touches := fun _ _ _ hg focus args _ =>
  .single (.function hg focus args)

theorem factory_keeps_touches {f : ObjectFactory} (hf : f ∈ env.factory?) : f.Keeps env.Touches :=
  fun parent name i _ => .single (.factory hf parent name i)

/-- **Nothing is touched where functions and factory change nothing.** -/
theorem Touches.unchanged (hfunctions : env.FunctionsKeep Store.Unchanged)
    (hfactory : ∀ f ∈ env.factory?, f.Keeps Store.Unchanged) (h : env.Touches s t) :
    s.Unchanged t := by
  induction h with
  | refl => exact .refl s
  | tail _ hstep ih =>
    refine ih.trans ?_
    cases hstep with
    | unchanged h => exact h
    | function hg focus args => exact hfunctions _ _ _ hg focus args _
    | factory hf parent name i => exact hfactory _ hf parent name i _

end Environment

end PathQuery
