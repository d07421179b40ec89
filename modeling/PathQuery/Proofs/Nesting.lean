import PathQuery.Proofs.Progress

/-!
# The bound on the nesting

A nested expression stands behind an opening bracket, so a rule calls the parser of nested
expressions on shorter texts only. What that parser does on longer ones is never asked, and any
depth beyond the length of the text gives the same reading: the bound decides nothing.

* names: `SameBelow`.
* **`expression_eq_of_lt`**: the depth does not matter once it exceeds the length.
-/

open PathQuery.Parser

namespace PathQuery

namespace Parser

variable {α β : Type} {n : Nat}

/-- The parsers do the same on texts shorter than `n`. -/
def SameBelow (n : Nat) (p q : Parser α) : Prop := ∀ input, input.length < n → p input = q input

variable {p q : Parser α} {f g : α → Parser β}

theorem SameBelow.refl (n : Nat) (p : Parser α) : SameBelow n p p := fun _ _ => rfl

theorem SameBelow.bind (h : SameBelow n p q) (hp : Within p) (hf : ∀ a, SameBelow n (f a) (g a)) :
    SameBelow n (p >>= f) (q >>= g) := by
  intro input hlt
  show (p input >>= fun x : α × List Char => f x.1 x.2) = (q input >>= fun x => g x.1 x.2)
  rw [← h input hlt]
  cases hread : p input with
  | error at_ => rfl
  | ok x => exact hf x.1 x.2 ((hp.reads hread).length_le.trans_lt hlt)

/-- What is done with the value does not matter, if it is the same. -/
theorem SameBelow.bind_same (h : SameBelow n p q) (f : α → Parser β) :
    SameBelow n (p >>= f) (q >>= f) := by
  intro input hlt
  show (p input >>= fun x : α × List Char => f x.1 x.2) = (q input >>= fun x => f x.1 x.2)
  rw [h input hlt]

/-- Behind what moves on, the texts are shorter by one. -/
theorem Advances.sameBelow_bind (hp : Advances p) (hf : ∀ a, SameBelow n (f a) (g a)) :
    SameBelow (n + 1) (p >>= f) (p >>= g) := by
  intro input hlt
  show (p input >>= fun x : α × List Char => f x.1 x.2) = (p input >>= fun x => g x.1 x.2)
  cases hread : p input with
  | error at_ => rfl
  | ok x => exact hf x.1 x.2 ((hp.shorter hread).trans_le (Nat.le_of_lt_succ hlt))

theorem SameBelow.orElse {p' q' : Parser α} (h : SameBelow n p q) (h' : SameBelow n p' q') :
    SameBelow n (Parser.orElse p p') (Parser.orElse q q') := by
  intro input hlt
  rw [Parser.orElse, Parser.orElse, h input hlt, h' input hlt]

theorem SameBelow.optional (h : SameBelow n p q) : SameBelow n (optional p) (optional q) := by
  intro input hlt
  rw [Parser.optional, Parser.optional, h input hlt]

theorem SameBelow.branch {p p' q q' : Parser β} {r : Parser α} (hr : Within r)
    (hp : SameBelow n p p') (hq : SameBelow n q q') :
    SameBelow n (do if (← Parser.optional r).isSome then p else q)
      (do if (← Parser.optional r).isSome then p' else q') := by
  intro input hlt
  rw [branch_eq, branch_eq]
  split
  · next hread => exact hp _ ((hr.reads hread).length_le.trans_lt hlt)
  · exact hq input hlt

theorem SameBelow.many (h : SameBelow n p q) : SameBelow n (many p) (many q) := by
  intro input hlt
  induction hn : input.length using Nat.strongRecOn generalizing input with
  | ind m ih =>
    rw [Parser.many, Parser.many, ← h input hlt]
    cases p input with
    | error at_ => rfl
    | ok x =>
      obtain ⟨a, rest⟩ := x
      by_cases hrest : rest.length < input.length
      · simp only [if_pos hrest, ih rest.length (hn ▸ hrest) rest (hrest.trans hlt) rfl]
      · simp only [if_neg hrest]

theorem SameBelow.token (h : SameBelow n p q) : SameBelow n (token p) (token q) :=
  (SameBelow.refl n blanks).bind within_blanks fun _ => h.bind_same _

theorem SameBelow.separated {separator : Parser Unit} (h : SameBelow n p q) (hp : Within p)
    (hseparator : Advances separator) :
    SameBelow n (separated separator p) (separated separator q) := by
  refine h.optional.bind hp.optional fun x => ?_
  cases x with
  | none => exact .refl n _
  | some a =>
    have hitem : SameBelow n (do separator; p) (do separator; q) :=
      (SameBelow.refl n separator).bind hseparator.toWithin fun _ => h
    exact hitem.many.bind_same _

end Parser

namespace Grammar

/-! ## The rules for nested expressions -/

section Nested

variable {n : Nat} {nested nested' : Parser Expr} (h : SameBelow n nested nested')

include h

theorem predicate_same : SameBelow (n + 1) (predicate nested) (predicate nested') :=
  (advances_tag (by decide)).token.sameBelow_bind fun _ => h.bind_same _

theorem step_same : SameBelow (n + 1) (step nested) (step nested') :=
  (SameBelow.refl _ _).bind advances_stepHead.token.toWithin fun _ =>
    (predicate_same h).many.bind_same _

theorem furtherStep_same : SameBelow (n + 1) (furtherStep nested) (furtherStep nested') := by
  have hslash : Within (Parser.orElse (do tag "//"; pure true) (do tag "/"; pure false)) :=
    ((within_tag _).bind fun _ => within_pure _).orElse ((within_tag _).bind fun _ => within_pure _)
  exact (SameBelow.refl _ _).bind hslash fun _ =>
    (step_same h).bind_same _

theorem furtherSteps_same : SameBelow (n + 1) (furtherSteps nested) (furtherSteps nested') :=
  (furtherStep_same h).many.bind_same _

variable (hw : Within nested)

include hw

theorem locationPath_same : SameBelow (n + 1) (locationPath nested) (locationPath nested') := by
  have hsteps (start : Start) (front : List Step) : SameBelow (n + 1)
      (do
        let first ← step nested
        let more ← furtherSteps nested
        pure (start, front ++ first :: more))
      (do
        let first ← step nested'
        let more ← furtherSteps nested'
        pure (start, front ++ first :: more)) :=
    (step_same h).bind (advances_step hw).toWithin fun _ =>
      (furtherSteps_same h).bind_same _
  refine SameBelow.branch (within_tag "//") (hsteps .root [.descendants]) ?_
  refine SameBelow.branch (within_tag "/") ?_ (hsteps .here [])
  refine (step_same h).optional.bind (advances_step hw).toWithin.optional fun first => ?_
  cases first with
  | none => exact .refl _ _
  | some first => exact (furtherSteps_same h).bind_same _

theorem arguments_same (f : QName) :
    SameBelow (n + 1) (arguments nested f) (arguments nested' f) := by
  have hsign : Advances (tag "(") := advances_tag (by decide)
  have hcomma : Advances (tag ",") := advances_tag (by decide)
  exact (SameBelow.refl _ _).bind within_blanks fun _ => hsign.sameBelow_bind fun _ =>
    (h.separated hw hcomma).bind_same _

theorem functionCall_same : SameBelow (n + 1) (functionCall nested) (functionCall nested') := by
  intro input hlt
  rw [functionCall_eq, functionCall_eq]
  split
  · rfl
  · next f rest hf =>
    have hrest : rest.length < n + 1 := (advances_qualifiedName.shorter hf).trans hlt
    rw [arguments_same h hw f rest hrest]

theorem primary_same : SameBelow (n + 1) (primary nested) (primary nested') := by
  have hbracketed : SameBelow (n + 1) (bracketed nested) (bracketed nested') :=
    (advances_tag (by decide)).sameBelow_bind fun _ => h.bind_same _
  have hcall := (functionCall_same h hw).orElse hbracketed
  exact ((SameBelow.refl _ _).orElse <| (SameBelow.refl _ _).orElse <|
    (SameBelow.refl _ _).orElse hcall).token

theorem filtered_same : SameBelow (n + 1) (filtered nested) (filtered nested') :=
  (primary_same h hw).bind (advances_primary hw).toWithin fun _ =>
    (predicate_same h).many.bind_same _

theorem pathExpr_same : SameBelow (n + 1) (pathExpr nested) (pathExpr nested') := by
  refine SameBelow.bind ((filtered_same h hw).orElse ?_)
    ((advances_filtered hw).toWithin.orElse ?_) fun _ => ?_
  · exact (locationPath_same h hw).bind_same _
  · exact (advances_locationPath hw).toWithin.bind fun _ => within_pure _
  · exact (furtherSteps_same h).bind_same _

omit hw h in
theorem leftAssoc_same {op : Parser BinaryOp} {operand operand' : Parser Expr} (hop : Advances op)
    (hw : Advances operand) (h : SameBelow n operand operand') :
    SameBelow n (leftAssoc op operand) (leftAssoc op operand') := by
  refine h.bind hw.toWithin fun _ => SameBelow.bind_same (SameBelow.many ?_) _
  exact (SameBelow.refl n _).bind hop.token.toWithin fun _ => h.bind_same _

theorem rule_same (k : Nat) : SameBelow (n + 1) (rule nested k) (rule nested' k) := by
  have hchain {k : Nat} (h : SameBelow (n + 1) (rule nested (k + 1)) (rule nested' (k + 1))) :
      SameBelow (n + 1) (leftAssoc (operators k) (rule nested (k + 1)))
        (leftAssoc (operators k) (rule nested' (k + 1))) :=
    leftAssoc_same (advances_operators k) (advances_rule hw (k + 1)) h
  have hunion : SameBelow (n + 1) (rule nested 8) (rule nested' 8) :=
    hchain (k := 8) (pathExpr_same h hw)
  have hunary : SameBelow (n + 1) (rule nested 7) (rule nested' 7) :=
    (SameBelow.refl _ _).bind advances_minus.many fun _ =>
      hunion.bind_same _
  have hproduct : SameBelow (n + 1) (rule nested 6) (rule nested' 6) := hchain hunary
  have hsum : SameBelow (n + 1) (rule nested 5) (rule nested' 5) := hchain hproduct
  have horder : SameBelow (n + 1) (rule nested 4) (rule nested' 4) := hchain hsum
  have hequality : SameBelow (n + 1) (rule nested 3) (rule nested' 3) := hchain horder
  have hand : SameBelow (n + 1) (rule nested 2) (rule nested' 2) := hchain hequality
  match k with
  | 0 | 1 => exact hchain hand
  | 2 => exact hand
  | 3 => exact hequality
  | 4 => exact horder
  | 5 => exact hsum
  | 6 => exact hproduct
  | 7 => exact hunary
  | 8 => exact hunion
  | _ + 9 => exact pathExpr_same h hw

end Nested

/-! ## Nested expressions -/

theorem expression_sameBelow {n depth depth' : Nat} (h : n ≤ depth) (h' : n ≤ depth') :
    SameBelow n (expression depth) (expression depth') := by
  induction n generalizing depth depth' with
  | zero => exact fun input hlt => absurd hlt (Nat.not_lt_zero _)
  | succ n ih =>
    obtain ⟨depth, rfl⟩ := Nat.exists_eq_add_of_le' h
    obtain ⟨depth', rfl⟩ := Nat.exists_eq_add_of_le' h'
    rw [← Nat.add_assoc, ← Nat.add_assoc]
    have hw := (advances_expression (depth + n)).toWithin
    have hnested := ih (Nat.le_add_left n depth) (Nat.le_add_left n depth')
    exact (rule_same hnested hw 1).token

/-- **Once it exceeds the length of the text, the depth does not matter.** -/
theorem expression_eq_of_lt {depth depth' : Nat} {input : List Char} (h : input.length < depth)
    (h' : input.length < depth') : expression depth input = expression depth' input :=
  expression_sameBelow (n := input.length + 1) h h' input (Nat.lt_succ_self _)

end Grammar

end PathQuery
