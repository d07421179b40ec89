import PathQuery.Proofs.PathTexts

/-!
# Canonical texts are read back

The canonical text of an expression is read back by the rule of its level, whatever may follow it.
An operand of a lower level stands in brackets and is read back there; a left operand of the same
level is a chain that goes on.

* names: `heard`, `Readable`: what is read of a text; one lemma for each kind of expression.
* **`readable_of_wellFormed`**: induction on the tree. **`parse_canonical`**: the whole text.
-/

open PathQuery.Parser

namespace PathQuery.Grammar

variable {k depth : Nat} {rest input mid : List Char} {nested : Parser Expr} {e left right : Expr}
  {op : BinaryOp} {spelling : Spelling}

/-! ## Expressions as operands -/

/-- What is read of a text before the rest: at the end of the text a last number is cut. -/
def heard (spelling : Spelling) (e : Expr) (rest : List Char) : Expr :=
  if rest.isEmpty then e.atEnd spelling else e

theorem heard_of_ne (h : rest ≠ []) : heard spelling e rest = e := by
  rw [heard, if_neg (by simpa using h)]

theorem heard_of_atEnd (h : e.atEnd spelling = e) (rest : List Char) :
    heard spelling e rest = e := by rw [heard, h, ite_self]

/-- The canonical text of an expression is read back by the rule of its level. -/
structure Readable (spelling : Spelling) (e : Expr) : Prop where
  starts : StartsAt e.level (e.text spelling)
  closed {depth : Nat} {rest : List Char} (hdepth : (e.text spelling).length ≤ depth)
    (hrest : Closing rest) :
    Reads (orExpr (expression depth)) (e.text spelling ++ rest) (heard spelling e rest) rest
  reads {depth : Nat} {rest : List Char} (hdepth : (e.text spelling).length ≤ depth)
    (hlevel : 1 ≤ e.level) (hrest : Follow e.level rest) :
    Reads (rule (expression depth) e.level) (e.text spelling ++ rest) (heard spelling e rest)
      (skip rest)
  chain {depth : Nat} {rest : List Char} {op : BinaryOp}
    (hdepth : (e.text spelling).length ≤ depth) (hlevel : e.level = op.level)
    (hrest : Follow (op.level + 1) rest) :
    Chain (expression depth) op.level (e.text spelling ++ rest) (heard spelling e rest) (skip rest)

theorem level_le (e : Expr) : e.level ≤ 9 := by
  cases e with
  | binary op => cases op <;> simp [Expr.level, BinaryOp.level]
  | path start steps => cases start <;> cases steps <;> simp [Expr.level]
  | _ => simp [Expr.level]

namespace Readable

/-- The text is read by all rules below its level. -/
theorem reads_of_le (h : Readable spelling e) (hdepth : (e.text spelling).length ≤ depth)
    (hk : 1 ≤ k) (hlevel : k ≤ e.level) (hrest : Follow k rest) :
    Reads (rule (expression depth) k) (e.text spelling ++ rest) (heard spelling e rest)
      (skip rest) :=
  reads_rule_of_le hk hlevel (level_le e)
    (h.reads hdepth (hk.trans hlevel) (hrest.mono hlevel)) hrest fun h8 =>
      h.starts.fails_minus h8 rest

theorem readsInside (h : Readable spelling e) (hdepth : (e.text spelling).length ≤ depth) :
    ReadsInside (expression (depth + 1)) spelling e where
  skip_text := h.starts.skip
  reads {input rest} hinput hrest hne := by
    have hread := h.closed hdepth hrest
    rw [heard_of_ne hne, ← hinput] at hread
    have := hread.token
    rwa [hrest.skip] at this

end Readable

theorem operator_level (op : BinaryOp) : 1 ≤ op.level ∧ op.level ≤ 8 ∧ op.level ≠ 7 := by
  cases op <;> decide

/-- What is read of an operand. -/
def operandHeard (spelling : Spelling) (needed : Nat) (e : Expr) (rest : List Char) : Expr :=
  if e.level < needed then e else heard spelling e rest

theorem heard_negate :
    heard spelling (.negate e) rest = .negate (operandHeard spelling 7 e rest) := by
  cases rest <;> simp [heard, operandHeard, Expr.atEnd]

theorem heard_binary : heard spelling (.binary op left right) rest =
    .binary op left (operandHeard spelling (op.level + 1) right rest) := by
  cases rest <;> simp [heard, operandHeard, Expr.atEnd]

theorem Readable.starts_operand (h : Readable spelling e) (k : Nat) :
    StartsAt k (inBrackets k e.level (e.text spelling)) := by
  obtain ⟨c, cs, htext, hc, hminus⟩ := h.starts
  rw [inBrackets]
  split
  · exact ⟨_, _, rfl, rfl, fun _ => by decide⟩
  · exact ⟨c, cs, htext, hc, fun hk => hminus (by omega)⟩

/-- **An operand is read back**, in brackets where it needs them. -/
theorem Readable.operand (h : Readable spelling e) (hk : 1 ≤ k) (hk' : k ≤ 9)
    (hdepth : (inBrackets k e.level (e.text spelling)).length ≤ depth) (hrest : Follow k rest) :
    Reads (rule (expression depth) k) (inBrackets k e.level (e.text spelling) ++ rest)
      (operandHeard spelling k e rest) (skip rest) := by
  rw [inBrackets] at hdepth ⊢
  rw [operandHeard]
  split at hdepth
  · next hlt =>
    simp only [hlt, if_true]
    obtain ⟨depth, rfl⟩ : ∃ d, depth = d + 1 := ⟨depth - 1, by simp at hdepth; omega⟩
    have hinside : ReadsInside (expression (depth + 1)) spelling e :=
      h.readsInside (by simp at hdepth; omega)
    have hinput : '(' :: (e.text spelling ++ [')']) ++ rest =
        '(' :: (e.text spelling ++ ')' :: rest) := by simp
    rw [hinput]
    exact reads_rule_of_le hk hk' le_rfl
      (reads_pathExpr_of_primary (reads_bracketed hinside rest) (hrest.mono hk')) hrest
      fun _ => fails_tag_of_head (d := '-') rfl (by decide)
  · next hle =>
    simp only [hle, if_false]
    exact h.reads_of_le hdepth hk (by omega) hrest

/-- A left operand is a chain of the level of its operator. -/
theorem Readable.leftOperand (h : Readable spelling e)
    (hdepth : (inBrackets op.level e.level (e.text spelling)).length ≤ depth) (hne : rest ≠ [])
    (hrest : Follow (op.level + 1) rest) :
    Chain (expression depth) op.level (inBrackets op.level e.level (e.text spelling) ++ rest) e
      (skip rest) := by
  obtain ⟨hpos, hle, -⟩ := operator_level op
  rcases Nat.lt_trichotomy e.level op.level with hlt | heq | hgt
  · have hbrackets (k : Nat) (hk : e.level < k) : inBrackets k e.level (e.text spelling) =
        '(' :: (e.text spelling ++ [')']) := if_pos hk
    have hdepth' : (inBrackets (op.level + 1) e.level (e.text spelling)).length ≤ depth := by
      rwa [hbrackets _ (by omega), ← hbrackets _ hlt]
    have hread := h.operand (by omega) (by omega) hdepth' hrest
    rw [hbrackets _ (by omega), ← hbrackets _ hlt, operandHeard, if_pos (by omega)] at hread
    exact .single hread
  · rw [inBrackets, if_neg (by omega)] at hdepth ⊢
    have hchain := h.chain hdepth heq hrest
    rwa [heard_of_ne hne] at hchain
  · rw [inBrackets, if_neg (by omega)] at hdepth ⊢
    have hread := h.reads_of_le hdepth (by omega) (k := op.level + 1) hgt hrest
    rw [heard_of_ne hne] at hread
    exact .single hread

/-! ## One lemma for each kind of expression -/

namespace Readable

theorem of_reads (starts : StartsAt e.level (e.text spelling)) (hlevel : 1 ≤ e.level)
    (reads : ∀ {depth : Nat} {rest : List Char}, (e.text spelling).length ≤ depth →
      Follow e.level rest → Reads (rule (expression depth) e.level) (e.text spelling ++ rest)
        (heard spelling e rest) (skip rest))
    (chain : ∀ {depth : Nat} {rest : List Char} {op : BinaryOp},
      (e.text spelling).length ≤ depth → e.level = op.level → Follow (op.level + 1) rest →
        Chain (expression depth) op.level (e.text spelling ++ rest) (heard spelling e rest)
          (skip rest)) : Readable spelling e where
  starts := starts
  closed {depth rest} hdepth hrest := by
    have hread := reads_rule_of_le le_rfl hlevel (level_le e) (reads hdepth (hrest.follow _))
      (hrest.follow 1) fun h8 => starts.fails_minus h8 rest
    rwa [hrest.skip] at hread
  reads hdepth _ hrest := reads hdepth hrest
  chain := chain

/-- An expression of the highest level, read back by the rule for paths. -/
theorem of_path (hlevel : e.level = 9) (starts : StartsAt 9 (e.text spelling))
    (reads : ∀ {depth : Nat} {rest : List Char}, (e.text spelling).length ≤ depth →
      Follow 9 rest → Reads (pathExpr (expression depth)) (e.text spelling ++ rest)
        (heard spelling e rest) (skip rest)) : Readable spelling e := by
  refine of_reads (hlevel ▸ starts) (by omega) (fun hdepth hrest => ?_) fun {_ _ op} _ hop => ?_
  · rw [hlevel] at hrest ⊢
    exact reads hdepth hrest
  · have := operator_level op
    omega

theorem of_literal {s : String} (hs : IsQuotable s) : Readable spelling (.literal s) := by
  refine of_path rfl ?_ fun _ hrest => ?_
  · rw [Expr.text, quoted]
    split <;> exact ⟨_, _, rfl, rfl, fun _ => by decide⟩
  · rw [heard_of_atEnd rfl]
    exact reads_pathExpr_of_primary (reads_literal hs _) hrest

theorem of_variable {q : QName} (hq : q.IsWritten) : Readable spelling (.variable q) := by
  refine of_path rfl ⟨_, _, rfl, rfl, fun _ => by decide⟩ fun _ hrest => ?_
  rw [heard_of_atEnd rfl]
  exact reads_pathExpr_of_primary (reads_variable hq hrest.after) hrest

theorem of_number {l : Number.Literal} (hl : l.IsProper) :
    Readable spelling (.number l.value) := by
  have hproper := spelling.proper hl
  refine of_path rfl (startsAt_number hproper 9) fun {depth rest} _ hrest => ?_
  have hstop : ∀ c ∈ rest.head?, c.isDigit = false ∧ c ≠ '.' := by
    intro c hc
    rcases hrest.head c hc with rfl | rfl | rfl | rfl <;> decide
  have hread : Reads (primary (expression depth)) _ _ _ := reads_numberPrimary hproper hstop
  have hheard : Expr.number (if rest = [] then (spelling.literal l.value).atEnd
      else spelling.literal l.value).value = heard spelling (.number l.value) rest := by
    cases rest with
    | nil => rfl
    | cons c cs => rw [if_neg (List.cons_ne_nil c cs), spelling.value hl, heard_of_ne (by simp)]
  rw [hheard] at hread
  exact reads_pathExpr_of_primary hread hrest

/-- Arguments, predicates and the expressions at the start of paths stand in brackets. -/
theorem readsInside_all {es : List Expr} (h : ∀ e ∈ es, Readable spelling e)
    (hdepth : ∀ e ∈ es, (e.text spelling).length ≤ depth) :
    ∀ e ∈ es, ReadsInside (expression (depth + 1)) spelling e :=
  fun e he => (h e he).readsInside (hdepth e he)

theorem of_call {f : QName} {args : List Expr} (hf : f.IsWritten)
    (hname : f.qualifier = none → f.name ∉ nodeTypeNames)
    (hargs : ∀ a ∈ args, Readable spelling a) : Readable spelling (.call f args) := by
  obtain ⟨c, cs, hcs, hc⟩ := exists_cons_of_isWritten hf
  refine of_path rfl ?_ fun {depth rest} hdepth hrest => ?_
  · rw [Expr.text, hcs]
    exact startsAt_name hc 9 _
  · rw [heard_of_atEnd rfl]
    have hinput : (Expr.call f args).text spelling ++ rest =
        f.text.toList ++ '(' :: (argumentsText spelling args ++ ')' :: rest) := by simp [Expr.text]
    have hlength : (argumentsText spelling args).length + 1 ≤ depth := by
      simp [Expr.text] at hdepth
      omega
    obtain ⟨depth, rfl⟩ : ∃ d, depth = d + 1 := ⟨depth - 1, by omega⟩
    have hinside := readsInside_all hargs
      fun a ha => (length_le_argumentsText ha).trans (Nat.le_of_succ_le_succ hlength)
    rw [hinput]
    exact reads_pathExpr_of_primary
      (reads_call hf hname hinside (fails_expression_bracket _) rest) hrest

theorem of_filter {base : Expr} {ps : List Expr} (hbase : Readable spelling base)
    (hps : ∀ p ∈ ps, Readable spelling p) (hne : ps ≠ []) :
    Readable spelling (.filter base ps) := by
  refine of_path rfl ⟨_, _, rfl, rfl, fun _ => by decide⟩ fun {depth rest} hdepth hrest => ?_
  rw [heard_of_atEnd rfl]
  have hinput : (Expr.filter base ps).text spelling ++ rest =
      '(' :: (base.text spelling ++ ')' :: (predicatesText spelling ps ++ rest)) := by
    simp [Expr.text]
  simp only [Expr.text, List.length_cons, List.length_append] at hdepth
  obtain ⟨depth, rfl⟩ : ∃ d, depth = d + 1 := ⟨depth - 1, by omega⟩
  have hinside := readsInside_all hps fun p hp => by
    have : (p.text spelling).length ≤ (predicatesText spelling ps).length :=
      length_le_predicatesText hp
    show _ ≤ depth
    omega
  rw [hinput]
  exact reads_filterText (hbase.readsInside (by omega)) hinside hne hrest

end Readable

/-- The parts of the steps of a path are readable. -/
def StepsReadable (spelling : Spelling) (steps : List Step) : Prop :=
  ∀ step ∈ steps, step.test.WellFormed ∧ ∀ p ∈ step.predicates, Readable spelling p

namespace Readable

theorem stepsInside {steps : List Step} (h : StepsReadable spelling steps)
    (hdepth : (stepsText spelling steps).length ≤ depth + 2) :
    StepsInside (expression (depth + 1)) spelling steps :=
  fun step hstep => ⟨(h step hstep).1, readsInside_all (h step hstep).2 fun _ hp =>
    Nat.le_of_add_le_add_right ((length_le_stepsText hstep hp).trans hdepth)⟩

theorem of_herePath {steps : List Step} (hsteps : StepsReadable spelling steps) (hne : steps ≠ []) :
    Readable spelling (.path .here steps) := by
  obtain ⟨⟨axis, test, predicates⟩, steps, rfl⟩ := List.exists_cons_of_ne_nil hne
  obtain ⟨c, cs, hcs, hc⟩ := exists_cons_of_isName (isName_axis axis)
  refine of_path rfl ?_ fun {depth rest} hdepth hrest => ?_
  · rw [Expr.text, Start.text, stepsText, List.drop_one, List.tail_cons, hcs]
    exact startsAt_name hc 9 _
  · rw [heard_of_atEnd rfl]
    simp only [Expr.text, Start.text, List.length_drop] at hdepth
    have hpos : 0 < axis.text.toList.length := by simp [hcs]
    obtain ⟨depth, rfl⟩ : ∃ d, depth = d + 1 := ⟨depth - 1, by simp [stepsText] at hdepth; omega⟩
    exact reads_herePathText (stepsInside hsteps (by omega)) hrest.stepsEnd

theorem of_root : Readable spelling (.path .root []) where
  starts := ⟨_, _, rfl, rfl, fun _ => by decide⟩
  closed {depth rest} _ hrest := by
    have hread : Reads (pathExpr (expression depth)) ('/' :: rest) (.path .root []) (skip rest) :=
      reads_rootText hrest
    rw [heard_of_atEnd rfl]
    have hrule := reads_rule_of_le (k := 1) le_rfl (by omega) le_rfl hread (hrest.follow 1)
      fun _ => fails_tag_of_head (d := '-') rfl (by decide)
    rwa [hrest.skip] at hrule
  reads _ hlevel := absurd hlevel (by simp [Expr.level])
  chain {_ _ op} _ hlevel := by
    have := operator_level op
    simp only [Expr.level] at hlevel
    omega

theorem of_rootPath {steps : List Step} (hsteps : StepsReadable spelling steps) :
    Readable spelling (.path .root steps) := by
  cases steps with
  | nil => exact of_root
  | cons step steps =>
    obtain ⟨axis, test, predicates⟩ := step
    refine of_path rfl ⟨_, _, rfl, rfl, fun _ => by decide⟩ fun {depth rest} hdepth hrest => ?_
    rw [heard_of_atEnd rfl]
    have hdepth : (stepsText spelling (.mk axis test predicates :: steps)).length ≤ depth := hdepth
    have hpos : 0 < (stepsText spelling (.mk axis test predicates :: steps)).length :=
      Nat.succ_pos _
    obtain ⟨depth, rfl⟩ : ∃ d, depth = d + 1 := ⟨depth - 1, by omega⟩
    exact reads_rootPathText (stepsInside hsteps (by omega)) hrest.stepsEnd

theorem of_negate (he : Readable spelling e) : Readable spelling (.negate e) := by
  refine of_reads ⟨_, _, rfl, rfl, fun h => absurd h (by simp [Expr.level])⟩ (by simp [Expr.level])
    (fun {depth rest} hdepth hrest => ?_) fun {_ _ op} _ hop => ?_
  · have hdepth : (inBrackets 7 e.level (e.text spelling)).length + 1 ≤ depth := hdepth
    have hoperand := he.operand (by omega) (by omega) (Nat.le_of_succ_le hdepth) hrest
    have hskip : skip (inBrackets 7 e.level (e.text spelling) ++ rest) =
        inBrackets 7 e.level (e.text spelling) ++ rest := (he.starts_operand 7).skip rest
    rw [heard_negate]
    exact reads_negate hoperand hskip
  · exact absurd hop.symm (operator_level op).2.2

/-- **Operands that are read back are read back around their operator.** -/
theorem of_binary (hleft : Readable spelling left) (hright : Readable spelling right) :
    Readable spelling (.binary op left right) := by
  have htext (rest : List Char) : (Expr.binary op left right).text spelling ++ rest =
      inBrackets op.level left.level (left.text spelling) ++ ' ' :: (op.text.toList ++
        ' ' :: (inBrackets (op.level + 1) right.level (right.text spelling) ++ rest)) := by
    simp [Expr.text]
  have hlevel := operator_level op
  have hchain {depth : Nat} {rest : List Char}
      (hdepth : ((Expr.binary op left right).text spelling).length ≤ depth)
      (hrest : Follow (op.level + 1) rest) :
      Chain (expression depth) op.level ((Expr.binary op left right).text spelling ++ rest)
        (heard spelling (.binary op left right) rest) (skip rest) := by
    have hlength := congrArg List.length (htext [])
    simp only [List.length_append, List.length_cons, List.length_nil] at hlength
    have hskip := (hright.starts_operand (op.level + 1)).skip rest
    have hfirst : Chain (expression depth) op.level _ left _ :=
      hleft.leftOperand (by omega) (List.cons_ne_nil _ _) (follow_operator (Nat.lt_succ_self _)
        (inBrackets (op.level + 1) right.level (right.text spelling) ++ rest))
    have hsecond : Reads (rule (expression depth) (op.level + 1)) _ _ _ :=
      hright.operand (by omega) (by omega) (by omega) hrest
    rw [skip_space, skip_operator] at hfirst
    rw [htext, heard_binary]
    refine hfirst.snoc (reads_link hsecond hskip) ?_
    have := length_skip_le rest
    simp only [List.length_append, List.length_cons]
    omega
  refine of_reads ?_ hlevel.1 (fun hdepth hrest => ?_) fun hdepth hop hrest => ?_
  · obtain ⟨c, cs, hcs, hc, hminus⟩ := hleft.starts_operand op.level
    exact ⟨c, _, by simp [Expr.text, hcs]; rfl, hc, hminus⟩
  · exact (hchain hdepth (hrest.mono (Nat.le_succ _))).reads hrest
  · have hop : op.level = _ := hop
    rw [← hop] at hrest ⊢
    exact hchain hdepth hrest

theorem of_valuePath {steps : List Step} (he : Readable spelling e) (hpath : e.isPath = false)
    (hsteps : StepsReadable spelling steps) (hne : steps ≠ []) :
    Readable spelling (.path (.value e) steps) := by
  refine of_path rfl ⟨_, _, rfl, rfl, fun _ => by decide⟩ fun {depth rest} hdepth hrest => ?_
  rw [heard_of_atEnd rfl]
  have hinput : (Expr.path (.value e) steps).text spelling ++ rest =
      '(' :: (e.text spelling ++ ')' :: (stepsText spelling steps ++ rest)) := by
    simp [Expr.text, Start.text]
  simp only [Expr.text, Start.text, List.length_cons, List.length_append] at hdepth
  obtain ⟨depth, rfl⟩ : ∃ d, depth = d + 1 := ⟨depth - 1, by omega⟩
  rw [hinput]
  exact reads_valuePathText (he.readsInside (by omega)) hpath (stepsInside hsteps (by omega)) hne
    hrest

end Readable

/-! ## Every expression that is read -/

mutual

/-- **Well-formed expressions are read back**, by induction on the tree. -/
theorem readable_of_wellFormed (e : Expr) (he : e.WellFormed) : Readable spelling e := by
  cases e with
  | literal s => exact .of_literal he
  | number x =>
    obtain ⟨l, hl, rfl⟩ := he
    exact .of_number hl
  | «variable» q => exact .of_variable he
  | call f args =>
    obtain ⟨hf, hname, hargs⟩ := he
    exact .of_call hf hname (readable_of_allWellFormed args hargs)
  | filter base ps =>
    obtain ⟨hbase, hne, hps⟩ := he
    exact .of_filter (readable_of_wellFormed base hbase) (readable_of_allWellFormed ps hps) hne
  | binary op left right =>
    exact .of_binary (readable_of_wellFormed left he.1) (readable_of_wellFormed right he.2)
  | negate e =>
    have he : e.WellFormed := he
    exact .of_negate (readable_of_wellFormed e he)
  | path start steps =>
    obtain ⟨hstart, hsteps⟩ := he
    have hsteps := stepsReadable_of_wellFormed steps hsteps
    cases start with
    | here => exact .of_herePath hsteps (by simpa [Start.WellFormed] using hstart)
    | root => exact .of_rootPath hsteps
    | value e =>
      obtain ⟨hne, hpath, he⟩ := hstart
      exact .of_valuePath (readable_of_wellFormed e he) hpath hsteps (by simpa using hne)

theorem readable_of_allWellFormed (es : List Expr) (hes : Expr.AllWellFormed es) :
    ∀ e ∈ es, Readable spelling e := by
  cases es with
  | nil => exact List.forall_mem_nil _
  | cons e es =>
    exact List.forall_mem_cons.2
      ⟨readable_of_wellFormed e hes.1, readable_of_allWellFormed es hes.2⟩

theorem stepsReadable_of_wellFormed (steps : List Step) (hsteps : Step.AllWellFormed steps) :
    StepsReadable spelling steps := by
  cases steps with
  | nil => exact List.forall_mem_nil _
  | cons step steps =>
    cases step with
    | mk axis test predicates =>
      obtain ⟨htest, hpredicates, hsteps⟩ := hsteps
      exact List.forall_mem_cons.2 ⟨⟨htest, readable_of_allWellFormed predicates hpredicates⟩,
        stepsReadable_of_wellFormed steps hsteps⟩

end

/-- At the end of a text the canonical text of an expression is read but for the fraction of a last
number. -/
theorem parse_text (he : e.WellFormed) :
    parse (canonical spelling e) = .ok (e.atEnd spelling) := by
  have hreadable : Readable spelling e := readable_of_wellFormed e he
  have hskip := hreadable.starts.skip []
  have hclosing : Closing [] := by simp [Closing]
  have hread := hreadable.closed le_rfl hclosing
  rw [List.append_nil] at hskip hread
  exact parse_of_reads (trimEnd_text he) hskip hread

/-- In brackets the canonical text is read as the expression itself. -/
theorem parse_bracketed_text (he : e.WellFormed) :
    parse ("(" ++ canonical spelling e ++ ")") = .ok e := by
  have hreadable : Readable spelling e := readable_of_wellFormed e he
  have htext : "(" ++ canonical spelling e ++ ")" =
      String.ofList ('(' :: (e.text spelling ++ [')'])) := by
    apply String.toList_injective
    simp [canonical]
  have hclosing : Closing [] := by simp [Closing]
  have hinside : ReadsInside (expression ((e.text spelling).length + 2)) spelling e :=
    hreadable.readsInside (Nat.le_succ _)
  have hbracketed := reads_bracketed hinside []
  have hpath := reads_pathExpr_of_primary hbracketed (hclosing.follow 9)
  have hread : Reads (orExpr (expression ((e.text spelling).length + 2)))
      ('(' :: (e.text spelling ++ [')'])) e (skip []) :=
    reads_rule_of_le (k := 1) le_rfl (by omega) le_rfl hpath (hclosing.follow 1)
      fun _ => fails_tag_of_head (d := '-') rfl (by decide)
  have hends : EndsVisibly ('(' :: (e.text spelling ++ [')'])) :=
    endsVisibly_last ('(' :: e.text spelling) rfl
  rw [htext]
  have hlength : ('(' :: (e.text spelling ++ [')'])).length = (e.text spelling).length + 2 := by
    simp
  exact parse_of_reads hends.trimEnd rfl (hlength ▸ hread)

/-- **Canonical texts are read back.** An expression that is read from a text is read from its
canonical text as well, unless this ends in a number with whole digits and a fraction: there the
fraction is read over. In brackets, every canonical text is read back. -/
theorem parse_canonical {s : String} (h : parse s = .ok e) :
    parse (canonical spelling e) = .ok (e.atEnd spelling) ∧
      ((∀ x ∈ e.lastNumber?, (spelling.literal x).whole = [] ∨ (spelling.literal x).fraction = []) →
        parse (canonical spelling e) = .ok e) ∧
      parse ("(" ++ canonical spelling e ++ ")") = .ok e := by
  have he := wellFormed_of_parse h
  have hend : parse (canonical spelling e) = .ok (e.atEnd spelling) := parse_text he
  exact ⟨hend, fun hlast => hend.trans (congrArg _ (Expr.atEnd_eq_self e he hlast)),
    parse_bracketed_text he⟩

/-- The literal 5.5. -/
def fiveAndHalf : Number.Literal := ⟨['5'], ['5']⟩

theorem isProper_fiveAndHalf : fiveAndHalf.IsProper :=
  ⟨by simp [fiveAndHalf], by simp [fiveAndHalf]⟩

/-- The spelling that writes 5.5 so. -/
noncomputable def withPoint : Spelling := .prefer fiveAndHalf isProper_fiveAndHalf

theorem withPoint_fiveAndHalf : withPoint.literal fiveAndHalf.value = fiveAndHalf :=
  Number.Literal.orAny_value fiveAndHalf

/-- A comparison with 5.5. -/
def isFiveAndHalf : Expr := .binary .equal (.literal "a") (.number fiveAndHalf.value)

theorem canonical_isFiveAndHalf : canonical withPoint isFiveAndHalf = "'a' = 5.5" := by
  apply String.toList_injective
  rw [canonical, String.toList_ofList, isFiveAndHalf, Expr.text, Expr.text, Expr.text,
    withPoint_fiveAndHalf]
  rfl

theorem atEnd_isFiveAndHalf : isFiveAndHalf.atEnd withPoint =
    .binary .equal (.literal "a") (.number (Number.ofNat 5)) := by
  rw [isFiveAndHalf, Expr.atEnd, if_neg (by decide), Expr.atEnd, withPoint_fiveAndHalf]
  rfl

set_option maxRecDepth 2000 in
theorem parse_canonical_isFiveAndHalf :
    parse "'a' = (5.5)" = .ok isFiveAndHalf ∧
      parse "'a' = 5.5" = .ok (.binary .equal (.literal "a") (.number (Number.ofNat 5))) ∧
      parse "('a' = 5.5)" = .ok isFiveAndHalf := by
  have hread : parse "'a' = (5.5)" = .ok isFiveAndHalf := by with_unfolding_all rfl
  obtain ⟨hend, -, hbrackets⟩ := @parse_canonical isFiveAndHalf withPoint _ hread
  rw [canonical_isFiveAndHalf] at hend hbrackets
  rw [atEnd_isFiveAndHalf] at hend
  exact ⟨hread, hend, hbrackets⟩

theorem five_ne_fiveAndHalf : Number.ofNat 5 ≠ fiveAndHalf.value := by
  intro h
  have hbits := congrArg Float.toBits h
  revert hbits
  decide +kernel

/-- The canonical text of 5.5 is read as 5. -/
theorem parse_canonical_cuts :
    parse "(5.5)" = .ok (.number fiveAndHalf.value) ∧
      canonical withPoint (.number fiveAndHalf.value) = "5.5" ∧
      parse "5.5" ≠ .ok (.number fiveAndHalf.value) := by
  have hcut : parse "5.5" = .ok (.number (Number.ofNat 5)) := by with_unfolding_all rfl
  refine ⟨by with_unfolding_all rfl, ?_, fun h => ?_⟩
  · apply String.toList_injective
    rw [canonical, String.toList_ofList, Expr.text, withPoint_fiveAndHalf]
    rfl
  · rw [hcut, Except.ok.injEq, Expr.number.injEq] at h
    exact five_ne_fiveAndHalf h

end PathQuery.Grammar
