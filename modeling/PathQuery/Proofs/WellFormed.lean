import PathQuery.Proofs.Names

/-!
# Well-formed expressions

What is read from a text can be written: its names are names, its numbers have literals, its texts
leave one of the quotes free, and filters and paths have the shapes that the grammar gives them.

* names: `Number.Literal.IsProper`, `QName.IsWritten`, `NodeTest.WellFormed`, `Expr.WellFormed`,
  `Step.WellFormed`.
* One lemma for each rule of the grammar says what the rule gives. **`wellFormed_of_parse`**: every
  expression that is read is well formed.
-/

open PathQuery.Parser

namespace PathQuery

/-- The literal consists of digits, one at least. -/
def Number.Literal.IsProper (l : Number.Literal) : Prop :=
  (∀ c ∈ l.whole ++ l.fraction, c.isDigit = true) ∧ l.whole ++ l.fraction ≠ []

/-- The parts of the name are names. -/
def QName.IsWritten (q : QName) : Prop :=
  Grammar.IsName q.name ∧ ∀ qualifier ∈ q.qualifier, Grammar.IsName qualifier

/-- No text contains both quotes. -/
def IsQuotable (s : String) : Prop := '\'' ∉ s.toList ∨ '"' ∉ s.toList

/-- The parts of the node test can be written. -/
def NodeTest.WellFormed : NodeTest → Prop
  | .name q => q.IsWritten ∨ q.name = "*" ∧ ∀ qualifier ∈ q.qualifier, Grammar.IsName qualifier
  | .type _ => True
  | .target s => IsQuotable s

/-- The expression is a path. -/
def Expr.isPath : Expr → Bool
  | .path .. => true
  | _ => false

mutual

/-- The expression can be written: names are names, numbers have literals, there is no filter
without predicates, no path without steps but the root, and no path at the start of a path. -/
def Expr.WellFormed : Expr → Prop
  | .literal s => IsQuotable s
  | .number x => ∃ l : Number.Literal, l.IsProper ∧ l.value = x
  | .variable q => q.IsWritten
  | .call f args =>
    f.IsWritten ∧ (f.qualifier = none → f.name ∉ Grammar.nodeTypeNames) ∧ Expr.AllWellFormed args
  | .filter base predicates =>
    base.WellFormed ∧ predicates ≠ [] ∧ Expr.AllWellFormed predicates
  | .binary _ left right => left.WellFormed ∧ right.WellFormed
  | .negate e => e.WellFormed
  | .path start steps => start.WellFormed steps.isEmpty ∧ Step.AllWellFormed steps

/-- All expressions are well formed. -/
def Expr.AllWellFormed : List Expr → Prop
  | [] => True
  | e :: es => e.WellFormed ∧ Expr.AllWellFormed es

/-- The start suits a path with steps, or one without. -/
def Start.WellFormed : Start → Bool → Prop
  | .here, isEmpty => isEmpty = false
  | .root, _ => True
  | .value e, isEmpty => isEmpty = false ∧ e.isPath = false ∧ e.WellFormed

/-- All steps are well formed. -/
def Step.AllWellFormed : List Step → Prop
  | [] => True
  | .mk _ test predicates :: steps =>
    test.WellFormed ∧ Expr.AllWellFormed predicates ∧ Step.AllWellFormed steps

end

theorem Expr.allWellFormed_iff {es : List Expr} :
    Expr.AllWellFormed es ↔ ∀ e ∈ es, e.WellFormed := by
  induction es with
  | nil => simp [Expr.AllWellFormed]
  | cons e es ih => simp [Expr.AllWellFormed, ih]

/-- The parts of the step are well formed. -/
def Step.WellFormed (step : Step) : Prop :=
  step.test.WellFormed ∧ ∀ e ∈ step.predicates, e.WellFormed

theorem Step.allWellFormed_iff {steps : List Step} :
    Step.AllWellFormed steps ↔ ∀ step ∈ steps, step.WellFormed := by
  induction steps with
  | nil => simp [Step.AllWellFormed]
  | cons step steps ih =>
    obtain ⟨axis, test, predicates⟩ := step
    simp [Step.AllWellFormed, ih, Expr.allWellFormed_iff, Step.WellFormed, Step.test,
      Step.predicates, and_assoc]

theorem Step.wellFormed_descendants : Step.descendants.WellFormed := ⟨trivial, by
  simp [Step.descendants, Step.predicates]⟩

/-! ## What the rules give -/

namespace Grammar

theorem gives_nameText : Gives nameText IsName := by
  intro input name rest h
  rw [Reads, nameText_eq] at h
  split at h
  · cases h
  · next hstart =>
    obtain ⟨rfl, -⟩ := Prod.mk.inj (Except.ok.inj h)
    have hfirst : ∀ c ∈ input.takeWhile isNameStart, isNameStart c = true :=
      fun c hc => List.mem_takeWhile_imp hc
    rw [isName_iff, String.toList_ofList, List.takeWhile_append_of_pos hfirst,
      List.dropWhile_append_of_pos hfirst]
    refine ⟨by simpa using fun hnil => absurd (by simp [hnil]) hstart, fun c hc => ?_⟩
    exact List.mem_takeWhile_imp ((List.dropWhile_suffix _).mem hc)

theorem gives_qualifiedName : Gives qualifiedName QName.IsWritten := by
  refine gives_nameText.bind fun first hfirst => ?_
  refine (Gives.optional (gives_any.bind fun _ _ => gives_nameText)).bind fun x hx => ?_
  cases x with
  | none => exact gives_pure ⟨hfirst, by simp⟩
  | some second => exact gives_pure ⟨hx second rfl, by simpa using hfirst⟩

theorem gives_numberLiteral :
    Gives numberLiteral fun x => ∃ l : Number.Literal, l.IsProper ∧ l.value = x := by
  intro input x rest h
  rw [Reads, numberLiteral] at h
  split at h
  · next l rest' hl =>
    obtain ⟨rfl, -⟩ := Prod.mk.inj (Except.ok.inj h)
    refine ⟨l, ?_, rfl⟩
    have hdigit (cs : List Char) : ∀ c ∈ cs.takeWhile Char.isDigit, c.isDigit = true :=
      fun c hc => List.mem_takeWhile_imp hc
    have hwhole := hdigit input
    rw [Number.Literal.read?] at hl
    split at hl
    · next rest₀ _ _ =>
      dsimp only at hl
      split at hl
      · cases hl
      · next hne =>
        cases hl
        exact ⟨by simpa using hdigit rest₀, by simpa using hne⟩
    · cases hl
    · next d ds rest₀ htake _ =>
      rw [htake] at hwhole
      split at hl
      · cases hl
        exact ⟨by simpa [htake] using hwhole, by simp [htake]⟩
      · cases hl
        refine ⟨fun c hc => ?_, by simp [htake]⟩
        rcases List.mem_append.1 hc with hc | hc
        · exact hwhole c (htake ▸ hc)
        · exact hdigit rest₀ c hc
    · next htake _ =>
      cases hl
      exact ⟨by simpa using hwhole, by simp [htake]⟩
  · cases h

theorem gives_stringLiteral : Gives stringLiteral IsQuotable := by
  have htake {c : Char} : Gives (takeWhile (· != c)) fun cs => c ∉ cs := by
    intro input cs rest h hc
    obtain ⟨rfl, -⟩ := Prod.mk.inj (Except.ok.inj h)
    simpa using List.mem_takeWhile_imp hc
  refine Gives.orElse ?_ ?_
  · refine gives_any.bind fun _ _ => htake.bind fun cs hcs => gives_any.bind fun _ _ => ?_
    exact gives_pure (.inl (by simpa using hcs))
  · refine gives_any.bind fun _ _ => htake.bind fun cs hcs => gives_any.bind fun _ _ => ?_
    exact gives_pure (.inr (by simpa using hcs))

theorem gives_nodeTest : Gives nodeTest NodeTest.WellFormed := by
  refine Gives.orElse (gives_any.bind fun _ _ => gives_pure (.inr ⟨rfl, by simp [QName.bare]⟩)) ?_
  refine Gives.orElse (Gives.orElse ?_ ?_) (Gives.orElse ?_ ?_)
  · refine gives_any.bind fun _ _ => gives_any.bind fun _ _ => ?_
    refine gives_stringLiteral.bind fun s hs => ?_
    exact gives_any.bind fun _ _ => gives_pure hs
  · refine gives_any.bind fun t _ => gives_any.bind fun _ _ => gives_any.bind fun _ _ => ?_
    exact gives_pure trivial
  · refine gives_nameText.bind fun q hq => gives_any.bind fun _ _ => gives_pure (.inr ⟨rfl, ?_⟩)
    rintro _ ⟨⟩
    exact hq
  · exact gives_qualifiedName.bind fun q hq => gives_pure (.inl hq)

theorem gives_leftAssoc {op : Parser BinaryOp} {operand : Parser Expr}
    (h : Gives operand Expr.WellFormed) : Gives (leftAssoc op operand) Expr.WellFormed := by
  refine h.bind fun first hfirst => ?_
  have hpair : Gives (do
      let o ← token op
      let e ← operand
      pure (o, e)) fun x => x.2.WellFormed :=
    gives_any.bind fun _ _ => h.bind fun _ he => gives_pure he
  refine hpair.many.bind fun rest hrest => gives_pure ?_
  induction rest generalizing first with
  | nil => exact hfirst
  | cons x rest ih =>
    exact ih _ ⟨hfirst, hrest x (List.mem_cons_self ..)⟩
      fun y hy => hrest y (List.mem_cons_of_mem _ hy)

section Nested

variable {nested : Parser Expr} (hnested : Gives nested Expr.WellFormed)

include hnested

theorem gives_predicate : Gives (predicate nested) Expr.WellFormed :=
  gives_any.bind fun _ _ => hnested.bind fun _ he => gives_any.bind fun _ _ => gives_pure he

theorem gives_step : Gives (step nested) Step.WellFormed := by
  have hhead : Gives stepHead fun x => x.2.WellFormed := by
    refine Gives.orElse (gives_any.bind fun _ _ => gives_pure trivial) ?_
    refine Gives.orElse (gives_any.bind fun _ _ => gives_pure trivial) ?_
    refine Gives.orElse ?_ ?_
    · exact gives_any.bind fun _ _ => gives_nodeTest.bind fun _ ht => gives_pure ht
    · exact gives_any.bind fun _ _ => gives_nodeTest.bind fun _ ht => gives_pure ht
  refine hhead.token.bind fun x hx => ?_
  exact (gives_predicate hnested).many.bind fun ps hps => gives_pure ⟨hx, hps⟩

theorem gives_furtherSteps :
    Gives (furtherSteps nested) fun steps => ∀ step ∈ steps, Step.WellFormed step := by
  have hfurther : Gives (furtherStep nested) fun steps => ∀ step ∈ steps, Step.WellFormed step := by
    refine gives_any.bind fun double _ => (gives_step hnested).bind fun s hs => gives_pure ?_
    cases double <;> simp [hs, Step.wellFormed_descendants]
  refine hfurther.many.bind fun stepss h => gives_pure fun step hstep => ?_
  obtain ⟨steps, hsteps, hstep⟩ := List.mem_flatten.1 hstep
  exact h steps hsteps step hstep

theorem gives_locationPath :
    Gives (locationPath nested) fun x => (Expr.path x.1 x.2).WellFormed := by
  have hsteps {start : Start} {steps : List Step} (hstart : start.WellFormed steps.isEmpty)
      (h : ∀ step ∈ steps, Step.WellFormed step) : (Expr.path start steps).WellFormed :=
    ⟨hstart, Step.allWellFormed_iff.2 h⟩
  refine gives_any.bind fun double _ => ?_
  cases double.isSome with
  | true =>
    refine (gives_step hnested).bind fun first hfirst => ?_
    refine (gives_furtherSteps hnested).bind fun more hmore => gives_pure (hsteps trivial ?_)
    simpa [Step.wellFormed_descendants, hfirst] using hmore
  | false =>
    refine gives_any.bind fun single _ => ?_
    cases single.isSome with
    | true =>
      refine (gives_step hnested).optional.bind fun first hfirst => ?_
      cases first with
      | none => exact gives_pure (hsteps trivial (by simp))
      | some first =>
        refine (gives_furtherSteps hnested).bind fun more hmore => gives_pure (hsteps trivial ?_)
        simpa [hfirst first rfl] using hmore
    | false =>
      refine (gives_step hnested).bind fun first hfirst => ?_
      refine (gives_furtherSteps hnested).bind fun more hmore => gives_pure (hsteps rfl ?_)
      simpa [hfirst] using hmore

theorem gives_functionCall : Gives (functionCall nested) Expr.WellFormed := by
  intro input e rest h
  have hcall (f : QName) (hf : f.IsWritten) (hname : f.qualifier = none → f.name ∉ nodeTypeNames) :
      Gives (do
        blanks
        tag "("
        let args ← separated (tag ",") nested
        token (tag ")")
        pure (.call f args) : Parser Expr) Expr.WellFormed := by
    refine gives_any.bind fun _ _ => gives_any.bind fun _ _ => ?_
    refine hnested.separated.bind fun args hargs => gives_any.bind fun _ _ => gives_pure ?_
    exact ⟨hf, hname, Expr.allWellFormed_iff.2 hargs⟩
  rw [Reads, functionCall] at h
  cases hq : qualifiedName input with
  | error at_ =>
    rw [hq] at h
    cases h
  | ok x =>
    obtain ⟨f, rest₁⟩ := x
    simp only [hq] at h
    cases hp : peek (token (tag "(")) rest₁ with
    | error at_ =>
      simp only [hp, bind, Except.bind] at h
      cases h
    | ok y =>
      obtain ⟨_, rest₂⟩ := y
      simp only [hp, bind, Except.bind] at h
      split at h
      · cases h
      · next hname =>
        refine hcall f (gives_qualifiedName _ _ _ hq) (fun hnone hmem => hname ?_) _ _ _ h
        simp [hnone, hmem]

theorem gives_primary : Gives (primary nested) Expr.WellFormed := by
  refine Gives.token (Gives.orElse ?_ (Gives.orElse ?_ (Gives.orElse ?_ (Gives.orElse ?_ ?_))))
  · exact gives_any.bind fun _ _ => gives_qualifiedName.bind fun q hq => gives_pure hq
  · exact gives_numberLiteral.bind fun x hx => gives_pure hx
  · exact gives_stringLiteral.bind fun s hs => gives_pure hs
  · exact gives_functionCall hnested
  · exact gives_any.bind fun _ _ => hnested.bind fun e he => gives_any.bind fun _ _ => gives_pure he

theorem gives_pathExpr : Gives (pathExpr nested) Expr.WellFormed := by
  have hfiltered : Gives (filtered nested) Expr.WellFormed := by
    refine (gives_primary hnested).bind fun base hbase => ?_
    refine (gives_predicate hnested).many.bind fun ps hps => gives_pure ?_
    cases ps with
    | nil => exact hbase
    | cons p ps => exact ⟨hbase, by simp, Expr.allWellFormed_iff.2 hps⟩
  refine (hfiltered.orElse ((gives_locationPath hnested).bind fun _ hx => gives_pure hx)).bind
    fun first hfirst => ?_
  refine (gives_furtherSteps hnested).bind fun more hmore => gives_pure ?_
  cases more with
  | nil => exact hfirst
  | cons step more =>
    have hmore := Step.allWellFormed_iff.2 hmore
    cases first with
    | path start steps =>
      obtain ⟨hstart, hsteps⟩ := hfirst
      refine ⟨?_, Step.allWellFormed_iff.2 fun s hs => ?_⟩
      · cases start with
        | here => simp [Start.WellFormed]
        | root => trivial
        | value e => exact ⟨by simp, hstart.2⟩
      · rcases List.mem_append.1 hs with hs | hs
        · exact Step.allWellFormed_iff.1 hsteps s hs
        · exact Step.allWellFormed_iff.1 hmore s hs
    | _ => exact ⟨⟨rfl, rfl, hfirst⟩, hmore⟩

theorem gives_orExpr : Gives (orExpr nested) Expr.WellFormed := by
  have hunary : Gives (unaryExpr nested) Expr.WellFormed := by
    refine gives_any.bind fun signs _ => ?_
    refine (gives_leftAssoc (gives_pathExpr hnested)).bind fun e he => gives_pure ?_
    induction signs generalizing e with
    | nil => exact he
    | cons sign signs ih => exact ih (.negate e) he
  exact gives_leftAssoc (gives_leftAssoc (gives_leftAssoc (gives_leftAssoc (gives_leftAssoc
    (gives_leftAssoc hunary)))))

end Nested

theorem gives_expression (depth : Nat) : Gives (expression depth) Expr.WellFormed := by
  induction depth with
  | zero => exact gives_fail
  | succ depth ih => exact (gives_orExpr ih).token

/-- **What is read from a text is well formed.** -/
theorem wellFormed_of_parse {s : String} {e : Expr} (h : parse s = .ok e) : e.WellFormed := by
  rw [parse] at h
  split at h
  · next hr =>
    obtain rfl := Except.ok.inj h
    exact gives_expression _ _ _ _ hr
  · cases h
  · cases h

end Grammar

end PathQuery
