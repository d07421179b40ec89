import PathQuery.Proofs.Levels

/-!
# Parsers go forward

What a parser leaves is a suffix of what it was given, and so is the place at which it fails. Nearly
every rule of the grammar moves on when it reads: the exceptions are the rests of names, the blanks
and the repetitions. What is repeated always moves on, so no repetition fails for lack of progress.

* names: `Within`, `Advances`, with one lemma for each combinator and each rule; `arguments`: what
  stands behind the name of a call.
* **`Advances.reads_many`**: a repetition of a parser that moves on always succeeds.
-/

open PathQuery.Parser

namespace PathQuery

namespace Parser

variable {α β : Type}

/-- What the parser leaves, or the place at which it fails, is a suffix of the text. -/
structure Within (p : Parser α) : Prop where
  reads : ∀ {input a rest}, Reads p input a rest → rest <:+ input
  fails : ∀ {input at_}, p input = .error at_ → at_ <:+ input

/-- Besides, the parser reads a character at least. -/
structure Advances (p : Parser α) : Prop extends Within p where
  shorter : ∀ {input a rest}, Reads p input a rest → rest.length < input.length

variable {p q : Parser α} {f : α → Parser β} {input rest at_ : List Char} {a : α}

/-! ## Sequence -/

theorem bind_eq_error : (p >>= f) input = .error at_ ↔
    p input = .error at_ ∨ ∃ a mid, Reads p input a mid ∧ f a mid = .error at_ := by
  show (p input >>= fun x : α × List Char => f x.1 x.2) = _ ↔ _
  cases hp : p input with
  | error at' => simp [Reads, hp, bind, Except.bind]
  | ok x =>
    constructor
    · intro h
      exact .inr ⟨x.1, x.2, hp, h⟩
    · rintro (h | ⟨a, mid, h, h'⟩)
      · cases h
      · obtain rfl := Except.ok.inj (hp.symm.trans h)
        exact h'

theorem within_pure (a : α) : Within (pure a : Parser α) where
  reads h := by
    cases h
    exact List.suffix_rfl
  fails h := by cases h

theorem Within.bind (h : Within p) (hf : ∀ a, Within (f a)) : Within (p >>= f) where
  reads hr := by
    obtain ⟨a, mid, ha, hb⟩ := reads_bind_iff.1 hr
    exact ((hf a).reads hb).trans (h.reads ha)
  fails hr := by
    obtain hp | ⟨a, mid, ha, hb⟩ := bind_eq_error.1 hr
    · exact h.fails hp
    · exact ((hf a).fails hb).trans (h.reads ha)

/-- A sequence moves on where its first part does. -/
theorem Advances.bind (h : Advances p) (hf : ∀ a, Within (f a)) : Advances (p >>= f) where
  toWithin := h.toWithin.bind hf
  shorter hr := by
    obtain ⟨a, mid, ha, hb⟩ := reads_bind_iff.1 hr
    exact ((hf a).reads hb).length_le.trans_lt (h.shorter ha)

/-- A sequence moves on where its second part does. -/
theorem Within.bind_advances (h : Within p) (hf : ∀ a, Advances (f a)) : Advances (p >>= f) where
  toWithin := h.bind fun a => (hf a).toWithin
  shorter hr := by
    obtain ⟨a, mid, ha, hb⟩ := reads_bind_iff.1 hr
    exact ((hf a).shorter hb).trans_le (h.reads ha).length_le

/-! ## Choice -/

theorem advances_fail : Advances (fail : Parser α) where
  reads h := by cases h
  fails h := by
    cases h
    exact List.suffix_rfl
  shorter h := by cases h

theorem reads_orElse (h : Reads (Parser.orElse p q) input a rest) :
    Reads p input a rest ∨ Reads q input a rest := by
  rw [Reads, Parser.orElse] at h
  split at h
  · next hp => exact .inl (hp.trans h)
  · exact .inr h

theorem Within.orElse (h : Within p) (h' : Within q) : Within (Parser.orElse p q) where
  reads hr := (reads_orElse hr).elim h.reads h'.reads
  fails hr := by
    rw [Parser.orElse] at hr
    split at hr
    · cases hr
    · exact h'.fails hr

theorem Advances.orElse (h : Advances p) (h' : Advances q) : Advances (Parser.orElse p q) where
  toWithin := h.toWithin.orElse h'.toWithin
  shorter hr := (reads_orElse hr).elim h.shorter h'.shorter

theorem Within.optional (h : Within p) : Within (optional p) where
  reads hr := by
    rw [Reads, Parser.optional] at hr
    split at hr
    · next hp =>
      obtain ⟨-, rfl⟩ := Prod.mk.inj (Except.ok.inj hr)
      exact h.reads hp
    · obtain ⟨-, rfl⟩ := Prod.mk.inj (Except.ok.inj hr)
      exact List.suffix_rfl
  fails hr := by
    rw [Parser.optional] at hr
    split at hr <;> cases hr

theorem within_notFollowed : Within (notFollowed p) where
  reads hr := by
    rw [Reads, notFollowed] at hr
    split at hr
    · cases hr
    · obtain ⟨-, rfl⟩ := Prod.mk.inj (Except.ok.inj hr)
      exact List.suffix_rfl
  fails hr := by
    rw [notFollowed] at hr
    split at hr
    · obtain rfl := Except.error.inj hr
      exact List.suffix_rfl
    · cases hr

/-- One of two parsers, chosen by what another one can read in front of them. -/
theorem branch_eq (p : Parser α) (q r : Parser β) (input : List Char) :
    (do if (← Parser.optional p).isSome then q else r) input =
      match p input with
      | .ok (_, rest) => q rest
      | .error _ => r input := by
  show (Parser.optional p input >>= fun x => (if x.1.isSome then q else r) x.2) = _
  rw [Parser.optional]
  cases p input <;> rfl

theorem Advances.branch {q r : Parser β} (h : Advances p) (hq : Within q) (hr : Advances r) :
    Advances (do if (← Parser.optional p).isSome then q else r) where
  reads hread := by
    rw [Reads, branch_eq] at hread
    split at hread
    · next hp => exact (hq.reads hread).trans (h.reads hp)
    · exact hr.reads hread
  fails hread := by
    rw [branch_eq] at hread
    split at hread
    · next hp => exact (hq.fails hread).trans (h.reads hp)
    · exact hr.fails hread
  shorter hread := by
    rw [Reads, branch_eq] at hread
    split at hread
    · next hp => exact (hq.reads hread).length_le.trans_lt (h.shorter hp)
    · exact hr.shorter hread

/-! ## Fixed texts and runs -/

theorem eq_append_of_reads_tag {s : String} (h : Reads (tag s) input () rest) :
    input = s.toList ++ rest := by
  rw [Reads, tag] at h
  split at h
  · next hs =>
    obtain ⟨cs, rfl⟩ := List.isPrefixOf_iff_prefix.1 hs
    obtain ⟨-, rfl⟩ := Prod.mk.inj (Except.ok.inj h)
    simp [← String.length_toList]
  · cases h

theorem within_tag (s : String) : Within (tag s) where
  reads h := ⟨s.toList, (eq_append_of_reads_tag h).symm⟩
  fails h := by
    rw [tag] at h
    split at h <;> cases h
    exact List.suffix_rfl

theorem advances_tag {s : String} (hs : s.toList ≠ []) : Advances (tag s) where
  toWithin := within_tag s
  shorter h := by
    rw [eq_append_of_reads_tag h, List.length_append]
    exact Nat.lt_add_of_pos_left (List.length_pos_iff.2 hs)

theorem within_takeWhile (test : Char → Bool) : Within (takeWhile test) where
  reads h := by
    obtain ⟨-, rfl⟩ := Prod.mk.inj (Except.ok.inj h)
    exact List.dropWhile_suffix _
  fails h := by cases h

theorem advances_takeWhile1 (test : Char → Bool) : Advances (takeWhile1 test) where
  reads h := by
    rw [Reads, takeWhile1] at h
    split at h
    · cases h
    · obtain ⟨-, rfl⟩ := Prod.mk.inj (Except.ok.inj h)
      exact List.dropWhile_suffix _
  fails h := by
    rw [takeWhile1] at h
    split at h <;> cases h
    exact List.suffix_rfl
  shorter {input a rest} h := by
    rw [Reads, takeWhile1] at h
    split at h
    · cases h
    · next hne =>
      obtain ⟨-, rfl⟩ := Prod.mk.inj (Except.ok.inj h)
      have hlength : (input.takeWhile test).length + (input.dropWhile test).length =
          input.length := by
        rw [← List.length_append, List.takeWhile_append_dropWhile]
      have hpos := List.length_pos_iff.2 fun hnil => hne (List.isEmpty_iff.2 hnil)
      omega

theorem within_blanks : Within blanks where
  reads h := by
    obtain ⟨-, rfl⟩ := Prod.mk.inj (Except.ok.inj h)
    exact List.dropWhile_suffix _
  fails h := by cases h

theorem Within.token (h : Within p) : Within (token p) :=
  within_blanks.bind fun _ => h.bind fun _ => within_blanks.bind fun _ => within_pure _

theorem Advances.token (h : Advances p) : Advances (token p) :=
  within_blanks.bind_advances fun _ => h.bind fun _ => within_blanks.bind fun _ => within_pure _

/-! ## Repetition -/

/-- **A repetition of a parser that moves on always succeeds**, with a suffix of the text. -/
theorem Advances.reads_many (h : Advances p) (input : List Char) :
    ∃ as rest, Reads (many p) input as rest ∧ rest <:+ input := by
  induction hn : input.length using Nat.strongRecOn generalizing input with
  | ind n ih =>
    cases hp : p input with
    | error at_ => exact ⟨[], input, Fails.many ⟨at_, hp⟩, List.suffix_rfl⟩
    | ok x =>
      obtain ⟨a, mid⟩ := x
      have hlt : mid.length < input.length := h.shorter hp
      obtain ⟨as, rest, hmany, hrest⟩ := ih mid.length (hn ▸ hlt) mid rfl
      exact ⟨a :: as, rest, Reads.many hp hlt hmany, hrest.trans (h.reads hp)⟩

theorem Advances.many (h : Advances p) : Within (many p) where
  reads {input as rest} hr := by
    obtain ⟨bs, rest', hmany, hrest⟩ := h.reads_many input
    obtain ⟨-, rfl⟩ := Prod.mk.inj (Except.ok.inj (hr.symm.trans hmany))
    exact hrest
  fails {input at_} hr := by
    obtain ⟨bs, rest', hmany, -⟩ := h.reads_many input
    cases hr.symm.trans hmany

theorem Advances.separated {separator : Parser Unit} (hseparator : Advances separator)
    (h : Within p) : Within (separated separator p) := by
  refine h.optional.bind fun x => ?_
  cases x with
  | none => exact within_pure _
  | some a => exact (hseparator.bind fun _ => h).many.bind fun _ => within_pure _

end Parser

namespace Grammar

/-! ## The rules go forward -/

theorem advances_nameText : Advances nameText :=
  (advances_takeWhile1 _).bind fun _ => (within_takeWhile _).bind fun _ => within_pure _

theorem advances_qualifiedName : Advances qualifiedName := by
  refine advances_nameText.bind fun first => ?_
  refine ((within_tag ":").bind fun _ => advances_nameText.toWithin).optional.bind fun x => ?_
  cases x <;> exact within_pure _

theorem advances_keyword {word : String} (hword : word.toList ≠ []) : Advances (keyword word) :=
  (advances_tag hword).bind fun _ => within_notFollowed

/-- A literal that is read has a digit or a point in front of what is left. -/
theorem suffix_read? {input rest : List Char} {l : Number.Literal}
    (h : Number.Literal.read? input = some (l, rest)) :
    rest <:+ input ∧ rest.length < input.length := by
  have hlength : (input.takeWhile Char.isDigit).length + (input.dropWhile Char.isDigit).length =
      input.length := by
    rw [← List.length_append, List.takeWhile_append_dropWhile]
  have hdrop := List.dropWhile_suffix Char.isDigit (l := input)
  rw [Number.Literal.read?] at h
  split at h
  · next rest' hwhole hpoint =>
    dsimp only at h
    split at h
    · cases h
    · obtain ⟨-, rfl⟩ := Prod.mk.inj (Option.some.inj h)
      have hrest : rest'.dropWhile Char.isDigit <:+ rest' := List.dropWhile_suffix _
      rw [hpoint] at hlength hdrop
      refine ⟨hrest.trans ((List.suffix_cons _ _).trans hdrop), ?_⟩
      have := hrest.length_le
      rw [List.length_cons] at hlength
      omega
  · cases h
  · next d ds rest' hwhole hpoint =>
    have hrest : rest <:+ rest' := by
      split at h <;> obtain ⟨-, rfl⟩ := Prod.mk.inj (Option.some.inj h)
      · exact List.nil_suffix
      · exact List.dropWhile_suffix _
    rw [hpoint] at hlength hdrop
    refine ⟨hrest.trans ((List.suffix_cons _ _).trans hdrop), ?_⟩
    have := hrest.length_le
    rw [List.length_cons] at hlength
    omega
  · next d ds hwhole _ =>
    obtain ⟨-, rfl⟩ := Prod.mk.inj (Option.some.inj h)
    refine ⟨hdrop, ?_⟩
    rw [hwhole, List.length_cons] at hlength
    omega

theorem advances_numberLiteral : Advances numberLiteral where
  reads h := by
    rw [Reads, numberLiteral] at h
    split at h
    · next hl =>
      obtain ⟨-, rfl⟩ := Prod.mk.inj (Except.ok.inj h)
      exact (suffix_read? hl).1
    · cases h
  fails h := by
    rw [numberLiteral] at h
    split at h <;> cases h
    exact List.suffix_rfl
  shorter h := by
    rw [Reads, numberLiteral] at h
    split at h
    · next hl =>
      obtain ⟨-, rfl⟩ := Prod.mk.inj (Except.ok.inj h)
      exact (suffix_read? hl).2
    · cases h

theorem advances_stringLiteral : Advances stringLiteral := by
  have hquoted {quote : String} (c : Char) (hquote : quote.toList ≠ []) :
      Advances (quotedBy quote c) :=
    (advances_tag hquote).bind fun _ => (within_takeWhile _).bind fun _ =>
      (within_tag _).bind fun _ => within_pure _
  exact (hquoted '\'' (by decide)).orElse (hquoted '"' (by decide))

theorem advances_oneOf {α : Type} {words : List (String × α)}
    (h : ∀ w ∈ words, w.1.toList ≠ []) : Advances (oneOf words) := by
  induction words with
  | nil => exact advances_fail
  | cons w words ih =>
    refine ((advances_tag (h w (List.mem_cons_self ..))).bind fun _ => within_pure _).orElse ?_
    exact ih fun w hw => h w (List.mem_cons_of_mem _ hw)

theorem advances_nodeTypeTest : Advances nodeTypeTest := by
  refine Advances.orElse ?_ ?_
  · exact (advances_tag (by decide)).bind fun _ => (within_tag _).token.bind fun _ =>
      advances_stringLiteral.toWithin.bind fun _ => (within_tag _).token.bind fun _ => within_pure _
  · exact (advances_oneOf (by decide)).bind fun _ => (within_tag _).token.bind fun _ =>
      (within_tag _).bind fun _ => within_pure _

theorem advances_nodeTest : Advances nodeTest := by
  refine Advances.orElse ((advances_tag (by decide)).bind fun _ => within_pure _) ?_
  refine advances_nodeTypeTest.orElse (Advances.orElse ?_ ?_)
  · exact advances_nameText.bind fun _ => (within_tag _).bind fun _ => within_pure _
  · exact advances_qualifiedName.bind fun _ => within_pure _

theorem advances_axis : Advances axis :=
  (advances_oneOf (by decide)).bind fun _ => (within_tag _).token.bind fun _ => within_pure _

theorem advances_stepHead : Advances stepHead := by
  refine Advances.orElse ((advances_tag (by decide)).bind fun _ => within_pure _) ?_
  refine Advances.orElse ((advances_tag (by decide)).bind fun _ => within_pure _) ?_
  refine Advances.orElse ?_ ?_
  · exact (advances_tag (by decide)).bind fun _ =>
      advances_nodeTest.toWithin.bind fun _ => within_pure _
  · exact advances_axis.toWithin.optional.bind_advances fun _ =>
      advances_nodeTest.bind fun _ => within_pure _

theorem advances_variableReference : Advances variableReference :=
  (advances_tag (by decide)).bind fun _ =>
    advances_qualifiedName.toWithin.bind fun _ => within_pure _

/-! ## Operators -/

theorem advances_operators (k : Nat) : Advances (operators k) := by
  have hsign {s : String} (op : BinaryOp) (hs : s.toList ≠ []) : Advances (do tag s; pure op) :=
    (advances_tag hs).bind fun _ => within_pure _
  have hword {s : String} (op : BinaryOp) (hs : s.toList ≠ []) : Advances (do keyword s; pure op) :=
    (advances_keyword hs).bind fun _ => within_pure _
  unfold operators
  split
  · exact hword .or (by decide)
  · exact hword .and (by decide)
  · exact (hsign .equal (by decide)).orElse (hsign .notEqual (by decide))
  · exact (hsign .lessEqual (by decide)).orElse <| (hsign .greaterEqual (by decide)).orElse <|
      (hsign .less (by decide)).orElse (hsign .greater (by decide))
  · exact (hsign .add (by decide)).orElse (hsign .subtract (by decide))
  · exact (hsign .multiply (by decide)).orElse <|
      (hword .divide (by decide)).orElse (hword .modulo (by decide))
  · exact hsign .union (by decide)
  · exact advances_fail

theorem advances_leftAssoc {op : Parser BinaryOp} {operand : Parser Expr} (hop : Advances op)
    (h : Advances operand) : Advances (leftAssoc op operand) :=
  h.bind fun _ => (hop.token.bind fun _ => h.toWithin.bind fun _ => within_pure _).many.bind
    fun _ => within_pure _

/-! ## The rules for nested expressions -/

/-- The arguments of a call, with their brackets. -/
def arguments (nested : Parser Expr) (f : QName) : Parser Expr := do
  blanks
  tag "("
  let args ← separated (tag ",") nested
  token (tag ")")
  pure (.call f args)

/-- A call, step by step: a name, a look at the bracket behind it, a look at the name. -/
theorem functionCall_eq (nested : Parser Expr) (input : List Char) :
    functionCall nested input =
      match qualifiedName input with
      | .error at_ => .error at_
      | .ok (f, rest) =>
        match token (tag "(") rest with
        | .error at_ => .error at_
        | .ok _ =>
          if f.qualifier.isNone && nodeTypeNames.contains f.name then .error input
          else arguments nested f rest := by
  show (qualifiedName input >>= fun x => peek (token (tag "(")) x.2 >>= fun y =>
    if x.1.qualifier.isNone && nodeTypeNames.contains x.1.name then .error input
    else arguments nested x.1 y.2) = _
  cases qualifiedName input with
  | error at_ => rfl
  | ok x =>
    simp only [bind, Except.bind, peek]
    cases token (tag "(") x.2 <;> rfl

theorem advances_minus : Advances (token (tag "-")) := (advances_tag (by decide)).token

section Nested

variable {nested : Parser Expr} (h : Within nested)

include h

theorem advances_predicate : Advances (predicate nested) :=
  (advances_tag (by decide)).token.bind fun _ => h.bind fun _ =>
    (within_tag _).token.bind fun _ => within_pure _

theorem advances_step : Advances (step nested) :=
  advances_stepHead.token.bind fun _ => (advances_predicate h).many.bind fun _ => within_pure _

theorem advances_furtherStep : Advances (furtherStep nested) := by
  have hslash {slash : String} (double : Bool) (hs : slash.toList ≠ []) :
      Advances (do tag slash; pure double) := (advances_tag hs).bind fun _ => within_pure _
  exact ((hslash true (by decide)).orElse (hslash false (by decide))).bind fun _ =>
    (advances_step h).toWithin.bind fun _ => within_pure _

theorem within_furtherSteps : Within (furtherSteps nested) :=
  (advances_furtherStep h).many.bind fun _ => within_pure _

theorem advances_locationPath : Advances (locationPath nested) := by
  have hsteps (start : Start) (front : List Step) : Advances (do
      let first ← step nested
      let more ← furtherSteps nested
      pure (start, front ++ first :: more)) :=
    (advances_step h).bind fun _ => (within_furtherSteps h).bind fun _ => within_pure _
  have hslash : Advances (tag "/") := advances_tag (by decide)
  have hdouble : Advances (tag "//") := advances_tag (by decide)
  refine hdouble.branch (hsteps .root [.descendants]).toWithin
    (hslash.branch ?_ (hsteps .here []))
  -- A single slash may stand alone.
  refine (advances_step h).toWithin.optional.bind fun first => ?_
  cases first with
  | none => exact within_pure _
  | some first => exact (within_furtherSteps h).bind fun _ => within_pure _

theorem within_arguments (f : QName) : Within (arguments nested f) :=
  within_blanks.bind fun _ => (within_tag _).bind fun _ =>
    ((advances_tag (by decide)).separated h).bind fun _ =>
      (within_tag _).token.bind fun _ => within_pure _

theorem advances_functionCall : Advances (functionCall nested) where
  reads {input e rest} hr := by
    rw [Reads, functionCall_eq] at hr
    split at hr
    · cases hr
    · next f mid hf =>
      split at hr
      · cases hr
      · split at hr
        · cases hr
        · exact ((within_arguments h f).reads hr).trans (advances_qualifiedName.reads hf)
  fails {input at_} hr := by
    rw [functionCall_eq] at hr
    split at hr
    · next hf => exact Except.error.inj hr ▸ advances_qualifiedName.fails hf
    · next f mid hf =>
      have hmid : mid <:+ input := advances_qualifiedName.reads hf
      split at hr
      · next hbracket =>
        obtain rfl := Except.error.inj hr
        exact ((within_tag _).token.fails hbracket).trans hmid
      · split at hr
        · exact Except.error.inj hr ▸ List.suffix_rfl
        · exact ((within_arguments h f).fails hr).trans hmid
  shorter {input e rest} hr := by
    rw [Reads, functionCall_eq] at hr
    split at hr
    · cases hr
    · next f mid hf =>
      split at hr
      · cases hr
      · split at hr
        · cases hr
        · exact ((within_arguments h f).reads hr).length_le.trans_lt
            (advances_qualifiedName.shorter hf)

theorem advances_bracketed : Advances (bracketed nested) :=
  (advances_tag (by decide)).bind fun _ => h.bind fun _ =>
    (within_tag _).bind fun _ => within_pure _

theorem advances_primary : Advances (primary nested) :=
  (advances_variableReference.orElse <|
    (advances_numberLiteral.bind fun _ => within_pure _).orElse <|
    (advances_stringLiteral.bind fun _ => within_pure _).orElse <|
    (advances_functionCall h).orElse (advances_bracketed h)).token

theorem advances_filtered : Advances (filtered nested) :=
  (advances_primary h).bind fun _ => (advances_predicate h).many.bind fun _ => within_pure _

theorem advances_pathExpr : Advances (pathExpr nested) :=
  ((advances_filtered h).orElse ((advances_locationPath h).bind fun _ => within_pure _)).bind
    fun _ => (within_furtherSteps h).bind fun _ => within_pure _

theorem advances_rule (k : Nat) : Advances (rule nested k) := by
  have hunion : Advances (unionExpr nested) :=
    advances_leftAssoc (advances_operators 8) (advances_pathExpr h)
  have hunary : Advances (unaryExpr nested) :=
    advances_minus.many.bind_advances fun _ => hunion.bind fun _ => within_pure _
  have hproduct : Advances (productExpr nested) := advances_leftAssoc (advances_operators 6) hunary
  have hsum : Advances (sumExpr nested) := advances_leftAssoc (advances_operators 5) hproduct
  have horder : Advances (orderExpr nested) := advances_leftAssoc (advances_operators 4) hsum
  have hequality : Advances (equalityExpr nested) :=
    advances_leftAssoc (advances_operators 3) horder
  have hand : Advances (andExpr nested) := advances_leftAssoc (advances_operators 2) hequality
  unfold rule
  split
  · exact advances_leftAssoc (advances_operators 1) hand
  · exact advances_leftAssoc (advances_operators 1) hand
  all_goals first | assumption | exact advances_pathExpr h

end Nested

theorem advances_expression (depth : Nat) : Advances (expression depth) := by
  induction depth with
  | zero => exact advances_fail
  | succ depth ih => exact (advances_rule ih.toWithin 1).token

end Grammar

end PathQuery
