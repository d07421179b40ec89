import PathQuery.Proofs.Failures
import PathQuery.Syntax.Parser

/-!
# Independence of the context

An expression that is not said to depend on the context has one value: wherever it is evaluated, it
gives the same nodes or the same scalar, or fails alike.

* names: `Expr.calls`, `Function.IgnoresFocus`, `Environment.Unfocused`; `CoreFunction.apply_congr`.
* The context enters through the start of a path and through calls. Predicates have contexts of
  their own, and the steps of a path start from the nodes before them.
* **`compute_congr`**, **`evaluate_congr`**: the value does not change with node, position or size.
-/

namespace PathQuery

/-! ## The calls of an expression -/

mutual

/-- The functions that an expression calls, with the numbers of their arguments. -/
def Expr.calls : Expr → List (QName × Nat)
  | .literal _ | .number _ | .variable _ => []
  | .call f args => (f, args.length) :: Expr.allCalls args
  | .filter base predicates => base.calls ++ Expr.allCalls predicates
  | .binary _ left right => left.calls ++ right.calls
  | .negate e => e.calls
  | .path (.value e) steps => e.calls ++ Step.allCalls steps
  | .path _ steps => Step.allCalls steps

/-- The functions that some of the expressions call. -/
def Expr.allCalls : List Expr → List (QName × Nat)
  | [] => []
  | e :: es => e.calls ++ Expr.allCalls es

/-- The functions that predicates of the steps call. -/
def Step.allCalls : List Step → List (QName × Nat)
  | [] => []
  | .mk _ _ predicates :: steps => Expr.allCalls predicates ++ Step.allCalls steps

end

/-- The core function that a name calls; no qualified name calls one. -/
def QName.core? (f : QName) : Option CoreFunction :=
  if f.qualifier.isNone then CoreFunction.ofName? f.name else none

/-- The function does the same at every node, position and size; only what it makes may bear the
occasion of the call. -/
def Function.IgnoresFocus (g : Function) : Prop :=
  ∀ f₁ f₂ : Focus, f₁.occasion = f₂.occasion → ∀ args, g f₁ args = g f₂ args

/-- Every function that the expression calls is a core function or ignores its focus. -/
def Environment.Unfocused (env : Environment) (calls : List (QName × Nat)) : Prop :=
  ∀ c ∈ calls, c.1.core? = none → ∀ g, env.function? c.1 c.2 = some g → g.IgnoresFocus

/-! ## Calls -/

namespace CoreFunction

variable {f : CoreFunction} {s : Store} {r : Registry} {args : List Answer}

theorem text_of_ofName? {n : String} (h : ofName? n = some f) : f.text = n := by
  simpa using List.find?_some h

/-- A call that does not read the context gives the same at every focus. -/
theorem apply_congr (h : readsContext (.bare f.text) args.length = Bool.false) (f₁ f₂ : Focus) :
    f.apply s r f₁ args = f.apply s r f₂ args := by
  cases f with
  | last | position | lang => cases h
  | localName | namespaceUri | name | string | stringLength | normalizeSpace | number =>
    cases args with
    | nil => cases h
    | cons a args => rfl
  | _ => rcases args with _ | ⟨a, _ | ⟨b, _ | ⟨c, _ | ⟨d, args⟩⟩⟩⟩ <;> rfl

end CoreFunction

theorem Except.within_any {α : Type} (x : Except PathError α) :
    Except.Within (fun _ => True) x := by
  cases x <;> trivial

/-- An action goes on alike if it does after every result that it can come to. -/
theorem Action.bind_congr {α β : Type} {Q : α → Prop} {a : Action α} {f g : α → Action β}
    (ha : a.Meets (fun _ => True) Q) (h : ∀ x, Q x → f x = g x) : a >>= f = a >>= g := by
  funext s
  show (a >>= f).result s = (a >>= g).result s
  have hs := ha s
  rw [result_bind, result_bind]
  cases hx : a.result s with
  | mk x t =>
    cases x with
    | error e => rfl
    | ok x =>
      rw [hx] at hs
      exact congrArg (Action.result · t) (h x hs)

namespace Environment

variable {r : Registry} {env : Environment} {f₁ f₂ : Focus}

/-- There is an answer for each argument. -/
theorem evaluateAll_length (es : List Expr) (focus : Focus) :
    (env.evaluateAll r es focus).Meets (fun _ => True) fun as => as.length = es.length := by
  induction es generalizing focus with
  | nil =>
    rw [evaluateAll]
    exact Action.meets_pure rfl
  | cons e es ih =>
    rw [evaluateAll]
    exact Action.Meets.bind (fun s => Except.within_any _) fun x _ =>
      Action.meets_liftM_bind (Except.within_any _) fun a _ =>
        (ih _).bind fun as has => Action.meets_pure (congrArg (· + 1) has)

/-- A call that does not read the context gives the same at every focus. -/
theorem call_congr {f : QName} {args : List Answer} (hf : readsContext f args.length = false)
    (hg : f.core? = none → ∀ g, env.function? f args.length = some g → g.IgnoresFocus)
    (h : f₁.occasion = f₂.occasion) : env.call r f args f₁ = env.call r f args f₂ := by
  cases hcore : f.core? with
  | some core =>
    obtain ⟨_ | qualifier, name⟩ := f
    · obtain rfl := CoreFunction.text_of_ofName? hcore
      have happly (s : Store) := CoreFunction.apply_congr (s := s) (r := r) hf f₁ f₂
      simp only [call, show CoreFunction.ofName? core.text = some core from hcore, happly,
        Option.isNone_none, if_true]
    · cases hcore
  | none =>
    rw [QName.core?] at hcore
    rw [call, call, hcore]
    cases hfound : env.function? f args.length with
    | none => rfl
    | some g => exact hg hcore g hfound f₁ f₂ h args

/-! ## Expressions -/

mutual

/-- **The value does not change with node, position or size.** -/
theorem compute_congr (e : Expr) (he : e.dependsOnContext = false) (hc : env.Unfocused e.calls)
    {f₁ f₂ : Focus} (h : f₁.occasion = f₂.occasion) :
    env.compute r e f₁ = env.compute r e f₂ := by
  have hpart (k : Nat) : (f₁.part k).occasion = (f₂.part k).occasion :=
    congrArg (Occasion.part · k) h
  cases e with
  | literal | number => rw [compute, compute]
  | «variable» name => rw [compute, compute, h]
  | call f args =>
    obtain ⟨hf, hargs⟩ := Bool.or_eq_false_iff.1 he
    rw [compute, compute, evaluateAll_congr args hargs (fun c h => hc c (.tail _ h)) h]
    refine Action.bind_congr (evaluateAll_length args f₂) fun as has => ?_
    have hcall : env.call r f as f₁ = env.call r f as f₂ :=
      call_congr (has ▸ hf) (has ▸ hc _ (.head _)) h
    rw [hcall]
  | filter base predicates =>
    have hbase := compute_congr base he (fun c h => hc c (List.mem_append_left _ h)) (hpart 0)
    rw [compute, compute, hbase, h]
  | negate e => rw [compute, compute, compute_congr e he hc h]
  | path start steps =>
    cases start with
    | here | root => cases he
    | value e =>
      have hstart := compute_congr e (Bool.or_eq_false_iff.1 he).1
        (fun c h => hc c (List.mem_append_left _ h)) (hpart 0)
      rw [compute, compute, startNodes, startNodes, hstart, hpart 0, h]
  | binary op left right =>
    obtain ⟨hl, hr⟩ := Bool.or_eq_false_iff.1 he
    have hleft := compute_congr left hl (fun c h => hc c (List.mem_append_left _ h)) (hpart 0)
    have hright := compute_congr right hr (fun c h => hc c (List.mem_append_right _ h)) (hpart 1)
    cases op <;> simp only [compute, hleft, hright, h]

theorem evaluateAll_congr (es : List Expr) (he : Expr.anyDependsOnContext es = false)
    (hc : env.Unfocused (Expr.allCalls es)) {f₁ f₂ : Focus} (h : f₁.occasion = f₂.occasion) :
    env.evaluateAll r es f₁ = env.evaluateAll r es f₂ := by
  have hpart (k : Nat) : (f₁.part k).occasion = (f₂.part k).occasion :=
    congrArg (Occasion.part · k) h
  cases es with
  | nil => rw [evaluateAll, evaluateAll]
  | cons e es =>
    obtain ⟨hfirst, hrest⟩ := Bool.or_eq_false_iff.1 he
    rw [evaluateAll, evaluateAll,
      compute_congr e hfirst (fun c h => hc c (List.mem_append_left _ h)) (hpart 0),
      evaluateAll_congr es hrest (fun c h => hc c (List.mem_append_right _ h)) (hpart 1)]

end

/-- **An expression that does not depend on the context has the same value everywhere.** -/
theorem evaluate_congr (e : Expr) (he : e.dependsOnContext = false)
    (hc : env.Unfocused e.calls) (f₁ f₂ : Focus) :
    env.begin r e f₁ = env.begin r e f₂ ∧ env.evaluate r e f₁ = env.evaluate r e f₂ := by
  have hbegin : env.begin r e f₁ = env.begin r e f₂ := by
    unfold begin
    refine bind_congr fun s => ?_
    exact compute_congr e he hc rfl
  exact ⟨hbegin, by rw [evaluate, evaluate, hbegin]⟩

/-- An environment with a function that numbers its arguments. -/
def numbering : Environment :=
  let arguments : Function := fun _ args => pure (.number (Number.ofNat args.length))
  let functions : FunctionLibrary := ⟨[(⟨⟨some "n", "arguments"⟩, none⟩, arguments)]⟩
  { root := { visit := { node := .map 0 none, occasion := {} } }
    locale := {}
    lenient := false
    own := { scope := 0, functions } }

set_option maxRecDepth 8192 in
/-- The predicate asks for its place, and the whole has one value at every node and place. -/
theorem evaluate_congr_numbering :
    let e : Expr := .filter (.call ⟨some "n", "arguments"⟩ [.call (.bare "string") [.literal "a"]])
      [.call (.bare "position") []]
    let f₁ : Focus := { node := numbering.root }
    let f₂ : Focus := { node := { visit := { node := .null none, occasion := {} } }
                        position := 2
                        size := 3 }
    Grammar.parse "n:arguments(string('a'))[position()]" = .ok e ∧ e.dependsOnContext = false ∧
      numbering.Unfocused e.calls ∧ f₁.node ≠ f₂.node ∧
      numbering.evaluate .standard e f₁ = numbering.evaluate .standard e f₂ := by
  intro e f₁ f₂
  have hdepends : e.dependsOnContext = false := by decide
  have hcalls : numbering.Unfocused e.calls := by
    intro c hc hcore g hg
    have hmem : c = (⟨some "n", "arguments"⟩, 1) ∨ c = (.bare "string", 1) ∨
        c = (.bare "position", 0) := by simpa [e, Expr.calls, Expr.allCalls] using hc
    rcases hmem with rfl | rfl | rfl
    · obtain rfl := Option.some.inj hg
      exact fun _ _ _ _ => rfl
    · cases hcore
    · cases hcore
  exact ⟨by with_unfolding_all rfl, hdepends, hcalls, by decide,
    (evaluate_congr e hdepends hcalls f₁ f₂).2⟩

end Environment

end PathQuery
