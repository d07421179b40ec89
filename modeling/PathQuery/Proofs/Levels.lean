import PathQuery.Proofs.Canonical

/-!
# Levels of precedence

The rules for operators form a ladder. What is read by one rule is read by all rules below it as
well, as long as no operator follows that one of them would take.

* names: `operators`, `rule`; `Closing`, `Follow`: what may stand behind an expression.
* **`reads_rule_of_le`**: down the ladder.
-/

open PathQuery.Parser

namespace PathQuery.Grammar

variable {k m : Nat} {rest input mid : List Char} {nested : Parser Expr} {e left right : Expr}
  {op : BinaryOp}

/-- The operators of a level. -/
def operators : Nat → Parser BinaryOp
  | 1 => orOp
  | 2 => andOp
  | 3 => equalityOp
  | 4 => orderOp
  | 5 => sumOp
  | 6 => productOp
  | 8 => unionOp
  | _ => fail

/-- The expressions of a level and of all levels above it. -/
def rule (nested : Parser Expr) : Nat → Parser Expr
  | 0 | 1 => orExpr nested
  | 2 => andExpr nested
  | 3 => equalityExpr nested
  | 4 => orderExpr nested
  | 5 => sumExpr nested
  | 6 => productExpr nested
  | 7 => unaryExpr nested
  | 8 => unionExpr nested
  | _ => pathExpr nested

theorem rule_level (nested : Parser Expr) (op : BinaryOp) :
    rule nested op.level = leftAssoc (operators op.level) (rule nested (op.level + 1)) := by
  cases op <;> rfl

theorem reads_operator (op : BinaryOp) (cs : List Char) :
    Reads (operators op.level) (op.text.toList ++ ' ' :: cs) op (' ' :: cs) := by
  cases op <;> with_unfolding_all rfl

theorem fails_operator {op op' : BinaryOp} (h : op.level < op'.level) (cs : List Char) :
    Fails (operators op'.level) (op.text.toList ++ ' ' :: cs) := by
  cases op <;> cases op' <;>
    first | exact absurd h (by decide) | exact ⟨_, by with_unfolding_all rfl⟩

/-- What may follow an expression that stands alone: nothing, or what closes it. -/
def Closing (rest : List Char) : Prop := ∀ c ∈ rest.head?, c = ']' ∨ c = ')' ∨ c = ','

theorem Closing.skip (h : Closing rest) : Parser.skip rest = rest :=
  skip_eq_self fun c hc => by rcases h c hc with rfl | rfl | rfl <;> rfl

theorem Closing.fails_operators {rest : List Char} (h : Closing rest) (op : BinaryOp) :
    Fails (operators op.level) rest := by
  cases rest with
  | nil => cases op <;> exact ⟨_, by with_unfolding_all rfl⟩
  | cons c cs =>
    rcases h c rfl with rfl | rfl | rfl <;> cases op <;> exact ⟨_, by with_unfolding_all rfl⟩

/-- What may follow an expression of a level: what closes it, or an operator of a lower level. -/
structure Follow (level : Nat) (rest : List Char) : Prop where
  head : ∀ c ∈ rest.head?, c = ' ' ∨ c = ']' ∨ c = ')' ∨ c = ','
  next : ∀ c ∈ (skip rest).head?, c ≠ '[' ∧ c ≠ '/' ∧ c ≠ '('
  operators : ∀ op : BinaryOp, level ≤ op.level → Fails (operators op.level) (skip rest)


theorem Follow.mono (h : Follow k rest) (hkm : k ≤ m) : Follow m rest :=
  ⟨h.head, h.next, fun op hop => h.operators op (hkm.trans hop)⟩

theorem Closing.follow (h : Closing rest) (k : Nat) : Follow k rest where
  head c hc := .inr (h c hc)
  next c hc := by
    rw [h.skip] at hc
    rcases h c hc with rfl | rfl | rfl <;> decide
  operators op _ := h.skip.symm ▸ h.fails_operators op

theorem follow_operator {op : BinaryOp} (h : op.level < k) (cs : List Char) :
    Follow k (' ' :: (op.text.toList ++ ' ' :: cs)) := by
  have hskip : skip (' ' :: (op.text.toList ++ ' ' :: cs)) = op.text.toList ++ ' ' :: cs := by
    cases op <;> rfl
  refine ⟨by simp, fun c hc => ?_, fun op' hop' => ?_⟩
  · rw [hskip] at hc
    cases op <;> cases hc <;> decide
  · rw [hskip]
    exact fails_operator (h.trans_le hop') cs

/-- The text starts with no blank, and with no minus sign where this would not be its own. -/
def StartsAt (level : Nat) (cs : List Char) : Prop :=
  ∃ c ds, cs = c :: ds ∧ Text.isTokenBlank c = false ∧ (8 ≤ level → c ≠ '-')

theorem StartsAt.skip {cs : List Char} (h : StartsAt k cs) (rest : List Char) :
    Parser.skip (cs ++ rest) = cs ++ rest := by
  obtain ⟨c, ds, rfl, hc, -⟩ := h
  exact skip_eq_self (by simpa using hc)

theorem StartsAt.fails_minus {cs : List Char} (h : StartsAt k cs) (hk : 8 ≤ k) (rest : List Char) :
    Fails (tag "-") (Parser.skip (cs ++ rest)) := by
  rw [h.skip]
  obtain ⟨c, ds, rfl, -, hminus⟩ := h
  exact fails_tag_of_head (d := '-') rfl (hminus hk)

/-- An expression of the next level is one of this level, if no operator of this level follows. -/
theorem reads_rule_of_succ (hk : 1 ≤ k) (hk' : k ≤ 8)
    (h : Reads (rule nested (k + 1)) input e (skip rest)) (hrest : Follow k rest)
    (hinput : k = 7 → Fails (tag "-") (skip input)) :
    Reads (rule nested k) input e (skip rest) := by
  have hop (op : BinaryOp) (hlevel : op.level = k) : Reads (rule nested k) input e (skip rest) := by
    subst hlevel
    rw [rule_level]
    have hfails := hrest.operators op le_rfl
    exact h.bind ((Fails.token (by rwa [skip_skip])).bind.many.bind reads_pure)
  obtain rfl | rfl | rfl | rfl | rfl | rfl | rfl | rfl :
      k = 1 ∨ k = 2 ∨ k = 3 ∨ k = 4 ∨ k = 5 ∨ k = 6 ∨ k = 7 ∨ k = 8 := by omega
  · exact hop .or rfl
  · exact hop .and rfl
  · exact hop .equal rfl
  · exact hop .less rfl
  · exact hop .add rfl
  · exact hop .multiply rfl
  · exact (Fails.token (hinput rfl)).many.bind (h.bind reads_pure)
  · exact hop .union rfl

theorem reads_rule_of_le (hk : 1 ≤ k) (hkm : k ≤ m) (hm : m ≤ 9)
    (h : Reads (rule nested m) input e (skip rest)) (hrest : Follow k rest)
    (hinput : 8 ≤ m → Fails (tag "-") (skip input)) :
    Reads (rule nested k) input e (skip rest) := by
  induction hkm using Nat.decreasingInduction with
  | self => exact h
  | of_succ k hkm ih =>
    refine reads_rule_of_succ hk (by omega) (ih (by omega) (hrest.mono (by omega))) hrest
      fun hseven => hinput (by omega)

/-! ## Chains of operators -/

/-- An operator of a level and the operand behind it. -/
def link (nested : Parser Expr) (level : Nat) : Parser (BinaryOp × Expr) := do
  let o ← token (operators level)
  let e ← rule nested (level + 1)
  pure (o, e)

/-- The expression is read as a first operand and the operators of a level behind it. -/
def Chain (nested : Parser Expr) (level : Nat) (input : List Char) (e : Expr) (rest : List Char) :
    Prop :=
  ∃ first links mid, Reads (rule nested (level + 1)) input first mid ∧
    Run (link nested level) mid links rest ∧
      links.foldl (fun left x => .binary x.1 left x.2) first = e

theorem Chain.single (h : Reads (rule nested (k + 1)) input e rest) : Chain nested k input e rest :=
  ⟨e, [], rest, h, .nil, rfl⟩

theorem Chain.snoc (h : Chain nested op.level input left mid)
    (hlink : Reads (link nested op.level) mid (op, right) rest) (hlt : rest.length < mid.length) :
    Chain nested op.level input (.binary op left right) rest := by
  obtain ⟨first, links, mid', hfirst, hlinks, rfl⟩ := h
  exact ⟨first, links ++ [(op, right)], mid', hfirst, hlinks.snoc hlink hlt, by simp⟩

/-- A chain is read by the rule of its level, if no operator of this level follows. -/
theorem Chain.reads (h : Chain nested op.level input e (skip rest)) (hrest : Follow op.level rest) :
    Reads (rule nested op.level) input e (skip rest) := by
  obtain ⟨first, links, mid', hfirst, hlinks, rfl⟩ := h
  have hstop : Fails (link nested op.level) (skip rest) :=
    (Fails.token (by simpa using hrest.operators op le_rfl)).bind
  rw [rule_level]
  exact hfirst.bind ((hlinks.many hstop).bind reads_pure)

theorem skip_operator (op : BinaryOp) (cs : List Char) :
    skip (op.text.toList ++ cs) = op.text.toList ++ cs := by cases op <;> rfl

theorem reads_link (h : Reads (rule nested (op.level + 1)) input right rest)
    (hinput : skip input = input) :
    Reads (link nested op.level) (op.text.toList ++ ' ' :: input) (op, right) rest := by
  have hop : Reads (token (operators op.level)) (op.text.toList ++ ' ' :: input) op input := by
    have h := Reads.token (skip_operator op _ ▸ reads_operator op input)
    rwa [skip_space, hinput] at h
  exact hop.bind (h.bind reads_pure)

/-! ## Minus signs -/

theorem foldl_negate (signs : List Unit) (e : Expr) :
    signs.foldl (fun e _ => e.negate) e.negate = (signs.foldl (fun e _ => e.negate) e).negate := by
  induction signs generalizing e with
  | nil => rfl
  | cons _ signs ih => exact ih e.negate

/-- One more minus sign before an expression. -/
theorem reads_negate (h : Reads (unaryExpr nested) input e rest) (hinput : skip input = input) :
    Reads (unaryExpr nested) ('-' :: input) (Expr.negate e) rest := by
  obtain ⟨signs, mid, hsigns, h⟩ := reads_bind_iff.1 h
  obtain ⟨operand, mid', hunion, hdone⟩ := reads_bind_iff.1 h
  obtain ⟨he, rfl⟩ := Prod.mk.inj (Except.ok.inj hdone)
  subst he
  have hsign : Reads (token (tag "-")) ('-' :: input) () (skip input) :=
    Reads.token (reads_tag rfl)
  rw [hinput] at hsign
  have hmany := hsign.many (by simp) hsigns
  rw [← foldl_negate]
  exact hmany.bind (hunion.bind reads_pure)

end PathQuery.Grammar
