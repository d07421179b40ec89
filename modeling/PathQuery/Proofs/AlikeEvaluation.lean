import PathQuery.Proofs.AlikeFunctions

/-!
# Evaluation of counterparts

Where the pointers of one store have counterparts in another, an expression has the same value at a
pointer and at its counterpart: the same scalar, counterparts in the same order, or the same
failure. Its variables and the functions that it calls must agree.

* names: `Expr.isClosed`, `Expr.variables`, `Store.Counterparts`, `Action.Alike`, `Outcome.Alike`,
  `Environment.Alike`.
* **`compute_alike`**: the value of an expression, by the recursion of the evaluator.
  **`begin_alike`**, **`evaluate_alike`**: its outcome and its answer; both stores stay as they are.
-/

namespace PathQuery

/-! ## Closed expressions -/

mutual

/-- The expression names no variables, and calls core functions only. -/
def Expr.isClosed : Expr → Bool
  | .literal _ | .number _ => true
  | .variable _ => false
  | .call f args => f.core?.isSome && Expr.allClosed args
  | .filter base predicates => base.isClosed && Expr.allClosed predicates
  | .binary _ left right => left.isClosed && right.isClosed
  | .negate e => e.isClosed
  | .path start steps => start.isClosed && Step.allClosed steps

/-- The expression that a path starts from is closed, if there is one. -/
def Start.isClosed : Start → Bool
  | .here | .root => true
  | .value e => e.isClosed

/-- All of the expressions are closed. -/
def Expr.allClosed : List Expr → Bool
  | [] => true
  | e :: es => e.isClosed && Expr.allClosed es

/-- All predicates of the steps are closed. -/
def Step.allClosed : List Step → Bool
  | [] => true
  | .mk _ _ predicates :: steps => Expr.allClosed predicates && Step.allClosed steps

end

/-! ## Variables -/

mutual

/-- The variables that an expression names. -/
def Expr.variables : Expr → List QName
  | .literal _ | .number _ => []
  | .variable x => [x]
  | .call _ args => Expr.allVariables args
  | .filter base predicates => base.variables ++ Expr.allVariables predicates
  | .binary _ left right => left.variables ++ right.variables
  | .negate e => e.variables
  | .path (.value e) steps => e.variables ++ Step.allVariables steps
  | .path _ steps => Step.allVariables steps

/-- The variables that some of the expressions name. -/
def Expr.allVariables : List Expr → List QName
  | [] => []
  | e :: es => e.variables ++ Expr.allVariables es

/-- The variables that predicates of the steps name. -/
def Step.allVariables : List Step → List QName
  | [] => []
  | .mk _ _ predicates :: steps => Expr.allVariables predicates ++ Step.allVariables steps

end

/-- There are no variables, and only core functions are called. -/
def NamesNothing (xs : List QName) (cs : List (QName × Nat)) : Prop :=
  xs = [] ∧ ∀ c ∈ cs, c.1.core?.isSome = true

theorem NamesNothing.append {xs xs' : List QName} {cs cs' : List (QName × Nat)}
    (h : NamesNothing xs cs) (h' : NamesNothing xs' cs') :
    NamesNothing (xs ++ xs') (cs ++ cs') :=
  ⟨by rw [h.1, h'.1, List.append_nil],
    fun c hc => (List.mem_append.1 hc).elim (h.2 c) (h'.2 c)⟩

mutual

theorem Expr.namesNothing (e : Expr) (he : e.isClosed = true) :
    NamesNothing e.variables e.calls := by
  cases e with
  | literal | number => exact ⟨rfl, nofun⟩
  | «variable» name => cases he
  | call f args =>
    obtain ⟨hcore, hargs⟩ := Bool.and_eq_true_iff.1 he
    obtain ⟨hvariables, hcalls⟩ := Expr.allNameNothing args hargs
    refine ⟨hvariables, fun c hc => ?_⟩
    rcases List.mem_cons.1 hc with rfl | hc
    · exact hcore
    · exact hcalls c hc
  | filter base predicates =>
    obtain ⟨hbase, hpredicates⟩ := Bool.and_eq_true_iff.1 he
    exact (Expr.namesNothing base hbase).append (Expr.allNameNothing predicates hpredicates)
  | binary op left right =>
    obtain ⟨hl, hr⟩ := Bool.and_eq_true_iff.1 he
    exact (Expr.namesNothing left hl).append (Expr.namesNothing right hr)
  | negate e => exact Expr.namesNothing e he
  | path start steps =>
    obtain ⟨hstart, hsteps⟩ := Bool.and_eq_true_iff.1 he
    have hnames := Step.allNameNothing steps hsteps
    cases start with
    | here | root => exact hnames
    | value e => exact (Expr.namesNothing e hstart).append hnames

theorem Expr.allNameNothing (es : List Expr) (he : Expr.allClosed es = true) :
    NamesNothing (Expr.allVariables es) (Expr.allCalls es) := by
  cases es with
  | nil => exact ⟨rfl, nofun⟩
  | cons e es =>
    obtain ⟨hfirst, hrest⟩ := Bool.and_eq_true_iff.1 he
    exact (Expr.namesNothing e hfirst).append (Expr.allNameNothing es hrest)

theorem Step.allNameNothing (steps : List Step) (he : Step.allClosed steps = true) :
    NamesNothing (Step.allVariables steps) (Step.allCalls steps) := by
  cases steps with
  | nil => exact ⟨rfl, nofun⟩
  | cons step steps =>
    obtain ⟨axis, test, predicates⟩ := step
    obtain ⟨hfirst, hrest⟩ := Bool.and_eq_true_iff.1 he
    exact (Expr.allNameNothing predicates hfirst).append (Step.allNameNothing steps hrest)

end

/-! ## Actions -/

namespace Action

open PathQuery.Except (ok_bind)

variable {α β γ δ : Type} {s t : Store} {P : α → β → Prop} {Q : γ → δ → Prop}

/-- The actions leave their stores as they are, and come to the same. -/
def Alike (s t : Store) (P : α → β → Prop) (a : Action α) (b : Action β) : Prop :=
  ∃ x y, a.result s = (x, s) ∧ b.result t = (y, t) ∧ Except.Alike P x y

theorem alike_pure {x : α} {y : β} (h : P x y) : Alike s t P (pure x) (pure y) :=
  ⟨_, _, rfl, rfl, h⟩

theorem alike_read {f : Store → Except PathError α} {g : Store → Except PathError β}
    (h : Except.Alike P (f s) (g t)) : Alike s t P (read f) (read g) :=
  ⟨_, _, result_read f s, result_read g t, h⟩

theorem Alike.bind {a : Action α} {b : Action β} {f : α → Action γ} {g : β → Action δ}
    (h : Alike s t P a b) (hf : ∀ x y, P x y → Alike s t Q (f x) (g y)) :
    Alike s t Q (a >>= f) (b >>= g) := by
  obtain ⟨x, y, hx, hy, hxy⟩ := h
  rw [Alike, result_bind, result_bind, hx, hy]
  cases x with
  | error e =>
    cases y with
    | error e' => exact ⟨_, _, rfl, rfl, hxy⟩
    | ok y => exact hxy.elim
  | ok x =>
    cases y with
    | error e' => exact hxy.elim
    | ok y => exact hf x y hxy

theorem alike_get_bind {f g : Store → Action γ} {Q : γ → γ → Prop}
    (h : Alike s t Q (f s) (g t)) : Alike s t Q (get >>= f) (get >>= g) := h

theorem alike_liftM_bind {x : Except PathError α} {y : Except PathError β} {f : α → Action γ}
    {g : β → Action δ} (hx : Except.Alike P x y)
    (hf : ∀ a b, P a b → Alike s t Q (f a) (g b)) :
    Alike s t Q ((liftM x : Action α) >>= f) ((liftM y : Action β) >>= g) :=
  Alike.bind ⟨x, y, result_liftM x s, result_liftM y t, hx⟩ hf

theorem Alike.peek {a : Action α} {b : Action β} (h : Alike s t P a b) :
    Except.Alike P (a.peek s) (b.peek t) := by
  obtain ⟨x, y, hx, hy, hxy⟩ := h
  rwa [peek_eq, peek_eq, hx, hy]

end Action

/-! ## Outcomes -/

/-- The outcomes are one scalar or related objects, or find counterparts. -/
inductive Outcome.Alike (R : Pointer → Pointer → Prop) (O : Value → Value → Prop) :
    Outcome → Outcome → Prop
  | answer {a b : Answer} (h : a.Alike R O b) (hscalar : a.isNodes = false) :
    Alike R O (.answer a) (.answer b)
  | nodes {n m : Search} (h : n.Alike R m) : Alike R O (.nodes n) (.nodes m)

section Outcomes

variable {R : Pointer → Pointer → Prop} {O : Value → Value → Prop}

theorem Outcome.Alike.all {x y : Outcome} (h : x.Alike R O y) :
    Except.Alike (Answer.Alike R O) x.all y.all := by
  cases h with
  | answer h => exact h
  | nodes h => exact h.all.map fun _ _ => .nodes

theorem Outcome.alike_ofAnswer {a b : Answer} (h : a.Alike R O b) :
    (ofAnswer a).Alike R O (ofAnswer b) := by
  cases h with
  | nodes hps => exact .nodes (Search.alike_ofList hps)
  | text t => exact .answer (.text t) rfl
  | number x => exact .answer (.number x) rfl
  | boolean b => exact .answer (.boolean b) rfl
  | object h => exact .answer (.object h) rfl

end Outcomes

/-! ## Evaluation -/

/-- The pointers of the one store have counterparts in the other, on all occasions that `T`
relates. -/
structure Store.Counterparts (R : Pointer → Pointer → Prop) (V O : Value → Value → Prop)
    (T : Occasion → Occasion → Prop) (r : Registry) (s t : Store) : Prop where
  now : T s.now t.now
  part {o o'} (h : T o o') (k : Nat) : T (o.part k) (o'.part k)
  on {o o'} (h : T o o') : Store.Mirrors R V O r (s.on o) (t.on o')

section Evaluation

variable {R : Pointer → Pointer → Prop} {V O : Value → Value → Prop}
variable {T : Occasion → Occasion → Prop} {r : Registry} {s t : Store}

theorem Store.Counterparts.mirrors (h : Store.Counterparts R V O T r s t) :
    Store.Mirrors R V O r s t := by
  have hon := h.on h.now
  rwa [show t.on t.now = t from rfl, show s.on s.now = s from rfl] at hon

theorem Focus.Alike.part (h : Store.Counterparts R V O T r s t) {f f' : Focus}
    (hf : f.Alike R T f') (k : Nat) : (f.part k).Alike R T (f'.part k) :=
  ⟨hf.node, hf.position, hf.size, h.part hf.occasion k⟩

namespace Environment

open PathQuery.Except (Alike)

variable {env env' : Environment} {xs xs' : List QName} {cs cs' : List (QName × Nat)}

/-- The environments start absolute paths at counterparts, in one language, and agree on variables
and on calls with so many arguments. -/
structure Alike (R : Pointer → Pointer → Prop) (O : Value → Value → Prop)
    (T : Occasion → Occasion → Prop) (r : Registry) (s t : Store) (xs : List QName)
    (cs : List (QName × Nat)) (env env' : Environment) : Prop where
  root : R env.root env'.root
  locale : env'.locale = env.locale
  «variable» : ∀ x ∈ xs, ∀ o o', T o o' →
    Except.Alike R (env.variablePointer (s.on o) x) (env'.variablePointer (t.on o') x)
  call : ∀ c ∈ cs, ∀ args args', args.length = c.2 → List.Forall₂ (Answer.Alike R O) args args' →
    ∀ focus focus', focus.Alike R T focus' →
      Action.Alike s t (Answer.Alike R O) (env.call r c.1 args focus) (env'.call r c.1 args' focus')

theorem Alike.mono (h : Alike R O T r s t xs cs env env') (hxs : xs' ⊆ xs) (hcs : cs' ⊆ cs) :
    Alike R O T r s t xs' cs' env env' where
  root := h.root
  locale := h.locale
  «variable» x hx := h.variable x (hxs hx)
  call c hc := h.call c (hcs hc)

theorem Alike.left (h : Alike R O T r s t (xs ++ xs') (cs ++ cs') env env') :
    Alike R O T r s t xs cs env env' :=
  h.mono (List.subset_append_left ..) (List.subset_append_left ..)

theorem Alike.right (h : Alike R O T r s t (xs ++ xs') (cs ++ cs') env env') :
    Alike R O T r s t xs' cs' env env' :=
  h.mono (List.subset_append_right ..) (List.subset_append_right ..)

variable (h : Store.Counterparts R V O T r s t)

include h

theorem keeps_alike {f f' : Focus} {a a' : Answer} (hf : f.Alike R T f') (ha : a.Alike R O a') :
    keeps t f' a' = keeps s f a := by
  cases ha with
  | number x => rw [keeps, keeps, hf.position]
  | nodes hps => exact h.mirrors.toBool_alike (.nodes hps)
  | object hv => exact h.mirrors.toBool_alike (.object hv)
  | _ => rfl

theorem candidates_alike {o o' : Occasion} (ho : T o o') (axis : Axis) (test : NodeTest)
    {p q : Pointer} (hp : R p q) : (candidates r (s.on o) axis test p).Alike R
      (candidates r (t.on o') axis test q) :=
  Search.alike_ofExcept <| ((h.on ho).along_alike hp axis).map fun _ _ hfound =>
    hfound.filter fun _ _ hx => (h.on ho).passes hx test

theorem advance_alike (axis : Axis) {f g : Pointer → Search} {a b : Search} (ha : a.Alike R b)
    (hf : ∀ p q, R p q → (f p).Alike R (g q)) :
    (advance s axis f a).Alike R (advance t axis g b) := by
  have hpath (p q : Pointer) (hp : R p q) : q.path t = p.path s := h.mirrors.path hp
  unfold advance
  split
  · cases ha with
    | ended => exact .ended
    | broken e => exact .broken e
    | @found p q more more' hp hmore =>
      dsimp only
      -- Only where there is a second node are paths compared.
      generalize more () = x at hmore ⊢
      generalize more' () = y at hmore ⊢
      cases hmore with
      | ended => exact hf p q hp
      | broken e => exact .broken e
      | found hp' hrest =>
        refine Search.Alike.distinctFrom (Search.Alike.gather ?_ hf) hpath _
        exact .found hp (.found hp' hrest)
  · exact ha.gather hf

/-- A call of a core function, but for one that asks for a language that counterparts may not
share. -/
theorem call_alike {f : QName} {core : CoreFunction} (hf : f.core? = some core)
    {args args' : List Answer} {focus focus' : Focus}
    (hlang : core = .lang → focus'.node.locale = focus.node.locale)
    (hfocus : focus.Alike R T focus') (hargs : List.Forall₂ (Answer.Alike R O) args args') :
    Action.Alike s t (Answer.Alike R O) (env.call r f args focus) (env'.call r f args' focus') := by
  rw [QName.core?] at hf
  rw [call, call, hf]
  exact Action.alike_read (core.apply_alike h.mirrors hlang hfocus hargs)

theorem traverse_alike (hlocale : env'.locale = env.locale) {o o' : Occasion} (ho : T o o')
    {x y : Outcome} (hx : x.Alike R O y) :
    Action.Alike s t (Search.Alike R) (env.traverse r o x) (env'.traverse r o' y) := by
  cases hx with
  | nodes hn => exact Action.alike_pure hn
  | answer ha hscalar =>
    -- A value without nodes is the root of a graph of its own.
    have hroot {v w : Value} (hvw : ∀ locale, Except.Alike R (r.root (s.on o) v locale)
        (r.root (t.on o') w locale)) : Except.Alike (Search.Alike R)
          (do pure (.ofList [← r.root (s.on o) v env.locale]))
          (do pure (.ofList [← r.root (t.on o') w env'.locale])) := by
      rw [hlocale]
      exact (hvw _).bind fun _ _ hp => .found hp .ended
    refine Action.alike_read ?_
    cases ha with
    | nodes => cases hscalar
    | text => exact hroot ((h.on ho).scalarRoot rfl)
    | number => exact hroot ((h.on ho).scalarRoot rfl)
    | boolean => exact hroot ((h.on ho).scalarRoot rfl)
    | object hv => exact hroot ((h.on ho).objectRoot hv)

theorem collect_alike (hlocale : env'.locale = env.locale) {o o' : Occasion} (ho : T o o')
    {x y : Outcome} (hx : x.Alike R O y) :
    Action.Alike s t (List.Forall₂ R) (env.collect r o x) (env'.collect r o' y) :=
  (traverse_alike h hlocale ho hx).bind fun _ _ hn => Action.alike_read hn.all

omit h in
mutual

/-- **An expression has the same value at counterparts.** -/
theorem compute_alike (h : Store.Counterparts R V O T r s t) (e : Expr)
    (henv : Alike R O T r s t e.variables e.calls env env') {focus focus' : Focus}
    (hf : focus.Alike R T focus') :
    Action.Alike s t (Outcome.Alike R O) (env.compute r e focus) (env'.compute r e focus') := by
  cases e with
  | literal t =>
    rw [compute, compute]
    exact Action.alike_pure (.answer (.text t) rfl)
  | number x =>
    rw [compute, compute]
    exact Action.alike_pure (.answer (.number x) rfl)
  | «variable» name =>
    rw [compute, compute]
    refine Action.alike_get_bind (Action.Alike.bind (Action.alike_read
      (henv.variable name (.head _) _ _ hf.occasion)) fun p q hp => Action.alike_pure ?_)
    exact .nodes (Search.alike_ofList ((h.on hf.occasion).elements hp))
  | call f args =>
    rw [compute, compute]
    refine (evaluateAll_alike h args (henv.mono (List.Subset.refl _)
      (List.subset_cons_self ..)) hf).bind fun as as' has => ?_
    exact (henv.call _ (.head _) as as' has.2 has.1 _ _ hf).bind fun a a' ha =>
      Action.alike_pure (Outcome.alike_ofAnswer ha)
  | filter base predicates =>
    rw [compute, compute]
    exact (compute_alike h base henv.left (hf.part h 0)).bind fun x y hx =>
      (collect_alike h henv.locale hf.occasion hx).bind fun ps qs hps =>
        (Action.alike_read (narrow_alike h predicates henv.right (h.part hf.occasion 1) hps)).bind
          fun ps' qs' hps' => Action.alike_pure (.nodes (Search.alike_ofList hps'))
  | negate e =>
    rw [compute, compute]
    exact (compute_alike h e henv hf).bind fun x y hx =>
      Action.alike_liftM_bind hx.all fun a a' ha =>
      (Action.alike_read (h.mirrors.toNumber_alike ha)).bind fun x y hx =>
        Action.alike_pure (hx ▸ .answer (.number (-x)) rfl)
  | path start steps =>
    rw [compute, compute]
    have hwalk {n m : Search} (hn : n.Alike R m)
        (hsteps : Alike R O T r s t (Step.allVariables steps) (Step.allCalls steps) env env') :
        Action.Alike s t (Outcome.Alike R O)
          (do pure (.nodes (walk r env steps (focus.occasion.part 1) (← get) n)))
          (do pure (.nodes (walk r env' steps (focus'.occasion.part 1) (← get) m))) :=
      Action.alike_get_bind (Action.alike_pure (.nodes (walk_alike h steps hsteps
        (h.part hf.occasion 1) hn)))
    cases start with
    | here =>
      rw [startNodes, startNodes]
      exact (Action.alike_pure (.found hf.node .ended)).bind fun n m hn => hwalk hn henv
    | root =>
      rw [startNodes, startNodes]
      exact (Action.alike_pure (.found henv.root .ended)).bind fun n m hn => hwalk hn henv
    | value e =>
      rw [startNodes, startNodes]
      exact ((compute_alike h e henv.left (hf.part h 0)).bind fun x y hx =>
        traverse_alike h henv.locale (h.part hf.occasion 0) hx).bind fun n m hn =>
          hwalk hn henv.right
  | binary op left right =>
    have hleft := compute_alike h left henv.left (hf.part h 0)
    have hright := compute_alike h right henv.right (hf.part h 1)
    -- One side of an operator and what is done with its answer.
    have hside {e : Expr} {f f' : Focus} {k k' : Answer → Action Outcome}
        (he : Action.Alike s t (Outcome.Alike R O) (env.compute r e f) (env'.compute r e f'))
        (hk : ∀ a a', a.Alike R O a' → Action.Alike s t (Outcome.Alike R O) (k a) (k' a')) :
        Action.Alike s t (Outcome.Alike R O) (do let a ← (← env.compute r e f).all; k a)
          (do let a ← (← env'.compute r e f').all; k' a) :=
      he.bind fun x y hx => Action.alike_liftM_bind hx.all hk
    have hbool (b : Bool) : Outcome.Alike R O (.answer (.boolean b)) (.answer (.boolean b)) :=
      .answer (.boolean b) rfl
    cases op with
    | union =>
      rw [compute, compute]
      exact hleft.bind fun x y hx =>
        (collect_alike h henv.locale (h.part hf.occasion 0) hx).bind fun ps qs hps =>
          hright.bind fun x' y' hx' =>
            (collect_alike h henv.locale (h.part hf.occasion 1) hx').bind fun ps' qs' hps' =>
              (Action.alike_read (h.mirrors.sortUnique_alike (List.rel_append hps hps'))).bind
                fun _ _ hsorted => Action.alike_pure (.nodes (Search.alike_ofList hsorted))
    | or | and =>
      rw [compute, compute]
      refine hside hleft fun a a' ha => Action.alike_get_bind ?_
      rw [h.mirrors.toBool_alike ha]
      split
      · exact Action.alike_pure (hbool _)
      · refine hside hright fun b b' hb => Action.alike_get_bind ?_
        rw [h.mirrors.toBool_alike hb]
        exact Action.alike_pure (hbool _)
    | _ =>
      rw [compute, compute]
      · exact hside hleft fun a a' ha => hside hright fun b b' hb =>
          (Action.alike_read (h.mirrors.apply_alike _ ha hb)).bind fun c c' hc =>
            Action.alike_pure (Outcome.alike_ofAnswer hc)
      all_goals nofun

theorem evaluateAll_alike (h : Store.Counterparts R V O T r s t) (es : List Expr)
    (henv : Alike R O T r s t (Expr.allVariables es) (Expr.allCalls es) env env')
    {focus focus' : Focus} (hf : focus.Alike R T focus') :
    Action.Alike s t (fun as as' => List.Forall₂ (Answer.Alike R O) as as' ∧ as.length = es.length)
      (env.evaluateAll r es focus) (env'.evaluateAll r es focus') := by
  cases es with
  | nil =>
    rw [evaluateAll, evaluateAll]
    exact Action.alike_pure ⟨.nil, rfl⟩
  | cons e es =>
    rw [evaluateAll, evaluateAll]
    exact (compute_alike h e henv.left (hf.part h 0)).bind fun x y hx =>
      Action.alike_liftM_bind hx.all fun a a' ha =>
        (evaluateAll_alike h es henv.right (hf.part h 1)).bind fun as as' has =>
          Action.alike_pure ⟨.cons ha has.1, congrArg (· + 1) has.2⟩

theorem narrow_alike (h : Store.Counterparts R V O T r s t) (es : List Expr)
    (henv : Alike R O T r s t (Expr.allVariables es) (Expr.allCalls es) env env')
    {o o' : Occasion} (ho : T o o') {ps qs : List Pointer} (hps : List.Forall₂ R ps qs) :
    Except.Alike (List.Forall₂ R) (env.narrow r es o ps s) (env'.narrow r es o' qs t) := by
  cases es with
  | nil =>
    rw [narrow, narrow]
    exact hps
  | cons e es =>
    -- Whether a predicate keeps a node, asked at the node and at its counterpart.
    have hask {f f' : Focus} (hf : f.Alike R T f') : Action.Alike s t (· = ·)
        (do
          let a ← (← env.compute r e f).all
          pure (keeps (← get) f a) : Action Bool)
        (do
          let a ← (← env'.compute r e f').all
          pure (keeps (← get) f' a)) :=
      (compute_alike h e henv.left hf).bind fun x y hx =>
        Action.alike_liftM_bind hx.all fun a a' ha =>
        Action.alike_get_bind (Action.alike_pure (keeps_alike h hf ha).symm)
    rw [narrow, narrow, hps.length_eq]
    refine (Alike.filterMapM (forall₂_zipIdx hps 1) fun x y hx => ?_).bind fun _ _ hkept =>
      narrow_alike h es henv.right (h.part ho 1) hkept
    obtain ⟨p, position⟩ := x
    obtain ⟨q, position'⟩ := y
    obtain ⟨hp, rfl⟩ : R p q ∧ position = position' := hx
    refine Alike.bind (P := (· = ·)) (hask ?_).peek fun b b' hb => ?_
    · exact ⟨hp, rfl, rfl, h.part ho 0⟩
    · obtain rfl := hb
      cases b
      · exact .none
      · exact .some hp

theorem walk_alike (h : Store.Counterparts R V O T r s t) (steps : List Step)
    (henv : Alike R O T r s t (Step.allVariables steps) (Step.allCalls steps) env env')
    {o o' : Occasion} (ho : T o o') {n m : Search} (hn : n.Alike R m) :
    (env.walk r steps o s n).Alike R (env'.walk r steps o' t m) := by
  cases steps with
  | nil =>
    rw [walk, walk]
    exact hn
  | cons step steps =>
    obtain ⟨axis, test, predicates⟩ := step
    rw [walk_cons, walk_cons]
    refine walk_alike h steps henv.right (h.part ho 1) (advance_alike h axis hn fun p q hp => ?_)
    have hfound := candidates_alike h (h.part ho 0) axis test hp
    rw [find, find]
    split
    · exact hfound
    · exact Search.alike_ofExcept <| hfound.all.bind fun ps qs hps =>
        (narrow_alike h predicates henv.left (h.part (h.part ho 0) 0) hps).bind fun _ _ hkept =>
          Search.alike_ofList hkept

end

/-- **An expression comes to the same at counterparts**, whenever it is evaluated. -/
theorem begin_alike (e : Expr) (henv : Alike R O T r s t e.variables e.calls env env')
    {focus focus' : Focus} (hp : R focus.node focus'.node)
    (hposition : focus'.position = focus.position) (hsize : focus'.size = focus.size) :
    Action.Alike s t (Outcome.Alike R O) (env.begin r e focus) (env'.begin r e focus') :=
  Action.alike_get_bind
    (compute_alike h e henv ⟨hp, hposition, hsize, h.part h.now 0⟩)

/-- **An expression that names nothing has the same answer at counterparts** of the same language;
both stores stay as they are. -/
theorem evaluate_alike (hR : ∀ p q, R p q → q.locale = p.locale) (hroot : R env.root env'.root)
    (hlocale : env'.locale = env.locale) (e : Expr) (he : e.isClosed = true) {focus focus' : Focus}
    (hf : focus.Alike R T focus') :
    Action.Alike s t (Answer.Alike R O) (env.evaluate r e focus) (env'.evaluate r e focus') := by
  obtain ⟨hvariables, hcalls⟩ := e.namesNothing he
  have henv : Alike R O T r s t e.variables e.calls env env' := by
    refine ⟨hroot, hlocale, by rw [hvariables]; nofun, fun c hc args args' _ hargs f f' hf => ?_⟩
    obtain ⟨core, hcore⟩ := Option.isSome_iff_exists.1 (hcalls c hc)
    exact call_alike h hcore (fun _ => hR _ _ hf.node) hf hargs
  exact (begin_alike h e henv hf.node hf.position hf.size).bind fun x y hx =>
    Action.alike_read hx.all

end Environment

end Evaluation

end PathQuery
