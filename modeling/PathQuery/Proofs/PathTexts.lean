import PathQuery.Proofs.Tokens

/-!
# Paths that are read back whole

Predicates, steps, primary expressions and paths are read back from their canonical texts, given
that the expressions inside their brackets are.

* names: `ReadsInside`, `StepsInside`, `StepsEnd`.
-/

open PathQuery.Parser

namespace PathQuery.Grammar

variable {k : Nat} {rest input : List Char} {nested : Parser Expr} {e : Expr}

/-! ## Nested expressions -/

variable {spelling : Spelling} {ps : List Expr} {steps : List Step}

/-- The parser reads the canonical text of the expression inside brackets. -/
structure ReadsInside (nested : Parser Expr) (spelling : Spelling) (e : Expr) : Prop where
  skip_text (rest : List Char) : skip (e.text spelling ++ rest) = e.text spelling ++ rest
  reads {input rest : List Char} (hinput : skip input = e.text spelling ++ rest)
    (hrest : Closing rest) (hne : rest ≠ []) : Reads nested input e rest

theorem After.of_head {c : Char} {cs : List Char} (hc : c = '[' ∨ c = '/') : After (c :: cs) where
  head d hd := by
    obtain rfl := Option.some.inj hd
    rcases hc with rfl | rfl <;> simp
  next d hd := by
    have hskip : skip (c :: cs) = c :: cs :=
      skip_eq_self (by rcases hc with rfl | rfl <;> simp [Text.isTokenBlank])
    rw [hskip] at hd
    obtain rfl := Option.some.inj hd
    rcases hc with rfl | rfl <;> decide

theorem After.predicatesText (h : After rest) (ps : List Expr) :
    After (PathQuery.predicatesText spelling ps ++ rest) := by
  cases ps with
  | nil => exact h
  | cons p ps => exact .of_head (.inl rfl)

theorem After.stepsText (h : After rest) (steps : List Step) :
    After (PathQuery.stepsText spelling steps ++ rest) := by
  cases steps with
  | nil => exact h
  | cons step steps =>
    obtain ⟨axis, test, predicates⟩ := step
    exact .of_head (.inr rfl)

theorem fails_predicate (h : ∀ c ∈ (skip input).head?, c ≠ '[') :
    Fails (predicate nested) input :=
  (Fails.token (fails_tag_of_head_ne rfl h)).bind

/-- **Predicates are read back** in brackets, one after another. -/
theorem reads_predicatesText (hps : ∀ p ∈ ps, ReadsInside nested spelling p)
    (hrest : ∀ c ∈ (skip rest).head?, c ≠ '[') :
    Reads (many (predicate nested)) (skip (predicatesText spelling ps ++ rest)) ps (skip rest) := by
  induction ps with
  | nil => exact (fails_predicate (by simpa [predicatesText] using hrest)).many
  | cons p ps ih =>
    have hp := hps p (List.mem_cons_self ..)
    have hinput : skip (predicatesText spelling (p :: ps) ++ rest) =
        '[' :: (p.text spelling ++ ']' :: (predicatesText spelling ps ++ rest)) := by
      simp [predicatesText, skip, Text.isTokenBlank]
    rw [hinput]
    have hopen : Reads (token (tag "["))
        ('[' :: (p.text spelling ++ ']' :: (predicatesText spelling ps ++ rest))) ()
        (skip (p.text spelling ++ ']' :: (predicatesText spelling ps ++ rest))) :=
      Reads.token (reads_tag rfl)
    have hclose : Reads (token (tag "]")) (']' :: (predicatesText spelling ps ++ rest)) ()
        (skip (predicatesText spelling ps ++ rest)) := Reads.token (reads_tag rfl)
    have hread : Reads nested (p.text spelling ++ ']' :: (predicatesText spelling ps ++ rest)) p
        (']' :: (predicatesText spelling ps ++ rest)) :=
      hp.reads (hp.skip_text _) (by simp [Closing]) (by simp)
    rw [hp.skip_text] at hopen
    refine Reads.many (hopen.bind (hread.bind (hclose.bind reads_pure))) ?_
      (ih fun p hp => hps p (List.mem_cons_of_mem _ hp))
    have := length_skip_le (predicatesText spelling ps ++ rest)
    simp only [List.length_cons, List.length_append] at this ⊢
    omega

/-- The predicates of all steps are read back. -/
def StepsInside (nested : Parser Expr) (spelling : Spelling) (steps : List Step) : Prop :=
  ∀ step ∈ steps, step.test.WellFormed ∧ ∀ p ∈ step.predicates, ReadsInside nested spelling p

/-- What follows the steps of a path. -/
structure StepsEnd (rest : List Char) : Prop where
  after : After rest
  next : ∀ c ∈ (skip rest).head?, c ≠ '[' ∧ c ≠ '/'

theorem Follow.stepsEnd (h : Follow k rest) : StepsEnd rest where
  after := h.after
  next c hc := ⟨(h.next c hc).1, (h.next c hc).2.1⟩

theorem next_stepsText (hrest : StepsEnd rest) (steps : List Step) :
    ∀ c ∈ (skip (stepsText spelling steps ++ rest)).head?, c ≠ '[' := by
  cases steps with
  | nil => exact fun c hc => (hrest.next c hc).1
  | cons step steps =>
    obtain ⟨axis, test, predicates⟩ := step
    intro c hc
    have hc : '/' = c := by simpa [stepsText, skip, Text.isTokenBlank] using hc
    rw [← hc]
    decide

/-- **A step is read back.** -/
theorem reads_stepText {a : Axis} {t : NodeTest} (ht : t.WellFormed)
    (hps : ∀ p ∈ ps, ReadsInside nested spelling p) (hrest : StepsEnd rest) (steps : List Step) :
    Reads (step nested) (a.text.toList ++ ':' :: ':' :: (t.text ++ (predicatesText spelling ps ++
      (stepsText spelling steps ++ rest)))) (.mk a t ps)
      (skip (stepsText spelling steps ++ rest)) :=
  (reads_stepHeadText ht ((hrest.after.stepsText steps).predicatesText ps)).bind
    ((reads_predicatesText hps (next_stepsText hrest steps)).bind reads_pure)

theorem fails_furtherStep_of_next (h : ∀ c ∈ input.head?, c ≠ '/') :
    Fails (furtherStep nested) input :=
  ((fails_tag_of_head_ne rfl h).bind.orElse_fails (fails_tag_of_head_ne rfl h).bind).bind

theorem fails_doubleSlash_axis (a : Axis) (cs : List Char) :
    Fails (tag "//") ('/' :: (a.text.toList ++ cs)) := by
  cases a <;> exact fails_tag (by simp [Axis.text])

/-- **Further steps are read back.** -/
theorem reads_stepsText (hsteps : StepsInside nested spelling steps) (hrest : StepsEnd rest) :
    Reads (furtherSteps nested) (skip (stepsText spelling steps ++ rest)) steps (skip rest) := by
  have hmany : Reads (many (furtherStep nested)) (skip (stepsText spelling steps ++ rest))
      (steps.map fun step => [step]) (skip rest) := by
    induction steps with
    | nil => exact (fails_furtherStep_of_next fun c hc => (hrest.next c hc).2).many
    | cons step steps ih =>
      obtain ⟨axis, test, predicates⟩ := step
      obtain ⟨htest, hpredicates⟩ := hsteps _ (List.mem_cons_self ..)
      have hread := reads_stepText (a := axis) htest hpredicates hrest steps
      have hinput : skip (stepsText spelling (.mk axis test predicates :: steps) ++ rest) =
          '/' :: (axis.text.toList ++ ':' :: ':' :: (test.text ++
            (predicatesText spelling predicates ++ (stepsText spelling steps ++ rest)))) := by
        simp [stepsText, skip, Text.isTokenBlank]
      have hslash : Reads (do tag "/"; pure false) ('/' :: (axis.text.toList ++ ':' :: ':' ::
          (test.text ++ (predicatesText spelling predicates ++
            (stepsText spelling steps ++ rest))))) false _ := (reads_tag rfl).bind reads_pure
      rw [hinput]
      refine Reads.many (((fails_doubleSlash_axis axis _).bind.orElse hslash).bind
        (hread.bind reads_pure)) ?_ (ih fun step hs => hsteps step (List.mem_cons_of_mem _ hs))
      have := length_skip_le (stepsText spelling steps ++ rest)
      simp only [List.length_cons, List.length_append] at this ⊢
      omega
  have hflatten (steps : List Step) : (steps.map fun step => [step]).flatten = steps := by
    induction steps <;> simp_all
  refine hmany.bind ?_
  rw [hflatten]
  exact reads_pure

/-! ## Primary expressions -/

/-- No variable, number or quoted text starts like this. -/
def isPlainFront (c : Char) : Bool :=
  c != '$' && !c.isDigit && c != '.' && c != '\'' && c != '"'

theorem isPlainFront_of_isNameStart {c : Char} (h : isNameStart c = true) :
    isPlainFront c = true := by
  have hdigit : c.isDigit = false := by
    by_contra hd
    simp only [Bool.not_eq_false, Char.isDigit, Bool.and_eq_true, decide_eq_true_eq,
      UInt32.le_iff_toNat_le] at hd
    have hcodes : ∀ n ∈ List.range' 48 10, isNameStart (Char.ofNat n) = false := by decide
    have hcode := hcodes c.toNat (by
      have hzero : '0'.val.toNat = 48 := rfl
      have hnine : '9'.val.toNat = 57 := rfl
      have hc : c.toNat = c.val.toNat := rfl
      rw [List.mem_range'_1]
      omega)
    rw [Char.ofNat_toNat, h] at hcode
    exact absurd hcode (by decide)
  have hne (d : Char) (hd : isNameStart d = false) : c ≠ d := by
    rintro rfl
    simp [h] at hd
  simp [isPlainFront, hdigit, hne '$' (by decide), hne '.' (by decide),
    hne '\'' (by decide), hne '"' (by decide)]

theorem fails_numberLiteral (h : ∀ c ∈ input.head?, isPlainFront c = true) :
    Fails numberLiteral input := by
  have hnone : Number.Literal.read? input = none := by
    cases input with
    | nil => rfl
    | cons c cs =>
      have hc := h c rfl
      simp only [isPlainFront, Bool.and_eq_true, bne_iff_ne, Bool.not_eq_true'] at hc
      have hdigits : (c :: cs).takeWhile Char.isDigit = [] := by simp [hc.1.1.1.2]
      have hrest : (c :: cs).dropWhile Char.isDigit = c :: cs := by simp [hc.1.1.1.2]
      rw [Number.Literal.read?, hdigits, hrest]
      split
      · next heq => exact absurd (List.cons.inj heq).1 hc.1.1.2
      · rfl
      · next heq _ => cases heq
      · next heq _ => cases heq
  exact ⟨input, by rw [numberLiteral, hnone]⟩

theorem fails_of_front (h : ∀ c ∈ input.head?, isPlainFront c = true) :
    Fails variableReference input ∧ Fails numberLiteral input ∧ Fails stringLiteral input := by
  have htag {s : String} {d : Char} (hs : s.toList.head? = some d) (hd : isPlainFront d = false) :
      Fails (tag s) input := by
    refine fails_tag_of_head_ne hs fun c hc => ?_
    rintro rfl
    simp [h c hc] at hd
  exact ⟨(htag (d := '$') rfl rfl).bind, fails_numberLiteral h,
    (htag (d := '\'') rfl rfl).bind.orElse_fails (htag (d := '"') rfl rfl).bind⟩

/-- A primary expression with such a front is a call or stands in brackets. -/
theorem reads_primary_of_front (h : ∀ c ∈ (skip input).head?, isPlainFront c = true)
    (he : Reads (orElse (functionCall nested) (bracketed nested)) (skip input) e rest) :
    Reads (primary nested) input e (skip rest) := by
  obtain ⟨hvariable, hnumber, hliteral⟩ := fails_of_front h
  exact Reads.token (hvariable.orElse (hnumber.bind.orElse (hliteral.bind.orElse he)))

theorem fails_primary_of_front (h : ∀ c ∈ (skip input).head?, isPlainFront c = true)
    (he : Fails (orElse (functionCall nested) (bracketed nested)) (skip input)) :
    Fails (primary nested) input := by
  obtain ⟨hvariable, hnumber, hliteral⟩ := fails_of_front h
  exact Fails.token (hvariable.orElse_fails (hnumber.bind.orElse_fails
    (hliteral.bind.orElse_fails he)))

theorem fails_functionCall_of_head (h : ∀ c ∈ input.head?, isNameStart c = false) :
    Fails (functionCall nested) input := by
  obtain ⟨at_, hat⟩ : Fails qualifiedName input := (fails_nameText h).bind
  exact ⟨at_, congrArg (· >>= _) hat⟩

theorem reads_bracketed (he : ReadsInside nested spelling e) (rest : List Char) :
    Reads (primary nested) ('(' :: (e.text spelling ++ ')' :: rest)) e (skip rest) := by
  have hskip : skip ('(' :: (e.text spelling ++ ')' :: rest)) =
      '(' :: (e.text spelling ++ ')' :: rest) := rfl
  have hbracketed : Reads (bracketed nested) ('(' :: (e.text spelling ++ ')' :: rest)) e rest :=
    (reads_tag rfl).bind ((he.reads (he.skip_text _) (by simp [Closing]) (by simp)).bind
      ((reads_tag rfl).bind reads_pure))
  have hcall : Fails (functionCall nested) ('(' :: (e.text spelling ++ ')' :: rest)) :=
    fails_functionCall_of_head (by simp; decide)
  exact reads_primary_of_front (by simp [hskip, isPlainFront])
    (by rw [hskip]; exact hcall.orElse hbracketed)

theorem reads_literal {s : String} (hs : IsQuotable s) (rest : List Char) :
    Reads (primary nested) (quoted s ++ rest) (.literal s) (skip rest) := by
  have hquote : ∃ c cs, quoted s ++ rest = c :: cs ∧ (c = '\'' ∨ c = '"') := by
    rw [quoted]
    split
    · exact ⟨_, _, rfl, .inr rfl⟩
    · exact ⟨_, _, rfl, .inl rfl⟩
  have hread : Reads (do let s ← stringLiteral; pure (Expr.literal s)) (quoted s ++ rest)
      (.literal s) rest := (reads_quoted hs rest).bind reads_pure
  obtain ⟨c, cs, hinput, hc⟩ := hquote
  rw [hinput] at hread ⊢
  have hskip : skip (c :: cs) = c :: cs :=
    skip_eq_self (by rcases hc with rfl | rfl <;> simp [Text.isTokenBlank])
  have hvariable : Fails variableReference (c :: cs) :=
    (fails_tag_of_head (d := '$') rfl (by rcases hc with rfl | rfl <;> decide)).bind
  have hnumber : Fails numberLiteral (c :: cs) := by
    rcases hc with rfl | rfl
    · exact ⟨_, rfl⟩
    · exact ⟨_, rfl⟩
  refine Reads.token ?_
  rw [hskip]
  exact hvariable.orElse (hnumber.bind.orElse hread.orElse)

theorem reads_variable {q : QName} (hq : q.IsWritten) (hrest : After rest) :
    Reads (primary nested) ('$' :: (q.text.toList ++ rest)) (.variable q) (skip rest) := by
  have hread : Reads variableReference ('$' :: (q.text.toList ++ rest)) (.variable q) rest :=
    (reads_tag rfl).bind ((reads_qualifiedName hq hrest.isOutside hrest.ne_colon).bind reads_pure)
  have hskip : skip ('$' :: (q.text.toList ++ rest)) = '$' :: (q.text.toList ++ rest) := rfl
  exact Reads.token (hskip.symm ▸ hread.orElse)

theorem exists_cons_of_isProper {l : Number.Literal} (hl : l.IsProper) :
    ∃ c cs, l.text = c :: cs ∧ (c.isDigit = true ∨ c = '.') := by
  obtain ⟨whole, fraction⟩ := l
  obtain ⟨hdigits, hne⟩ := hl
  cases whole with
  | cons d ds => exact ⟨d, _, rfl, .inl (hdigits d (by simp))⟩
  | nil =>
    cases fraction with
    | nil => exact absurd rfl hne
    | cons f fs => exact ⟨'.', _, rfl, .inr rfl⟩

theorem startsAt_number {l : Number.Literal} (hl : l.IsProper) (k : Nat) : StartsAt k l.text := by
  obtain ⟨c, cs, htext, hc⟩ := exists_cons_of_isProper hl
  refine ⟨c, cs, htext, ?_, ?_⟩
  · rcases hc with hc | rfl
    · exact isTokenBlank_of_isDigit hc
    · rfl
  · rintro - rfl
    rcases hc with hc | hc <;> revert hc <;> decide

theorem reads_numberPrimary {l : Number.Literal} (hl : l.IsProper)
    (hrest : ∀ c ∈ rest.head?, c.isDigit = false ∧ c ≠ '.') :
    Reads (primary nested) (l.text ++ rest)
      (.number (if rest = [] then l.atEnd else l).value) (skip rest) := by
  have hread : Reads (do let x ← numberLiteral; pure (Expr.number x)) (l.text ++ rest)
      (.number (if rest = [] then l.atEnd else l).value) rest :=
    (reads_numberText hl hrest).bind reads_pure
  have hvariable : Fails variableReference (l.text ++ rest) := by
    obtain ⟨c, cs, htext, hc⟩ := exists_cons_of_isProper hl
    rw [htext]
    refine (fails_tag_of_head (d := '$') rfl ?_).bind
    rintro rfl
    rcases hc with hc | hc <;> revert hc <;> decide
  refine Reads.token ?_
  rw [(startsAt_number hl 9).skip]
  exact hvariable.orElse hread.orElse

/-! ## Calls -/

variable {args : List Expr}

theorem reads_furtherArgumentsText (hargs : ∀ a ∈ args, ReadsInside nested spelling a)
    (rest : List Char) :
    Reads (many (do tag ","; nested)) (furtherArgumentsText spelling args ++ ')' :: rest) args
      (')' :: rest) := by
  induction args with
  | nil => exact (fails_tag_of_head (d := ',') rfl (by decide)).bind.many
  | cons a args ih =>
    have ha := hargs a (List.mem_cons_self ..)
    have hinput : furtherArgumentsText spelling (a :: args) ++ ')' :: rest =
        ',' :: ' ' :: (a.text spelling ++ (furtherArgumentsText spelling args ++ ')' :: rest)) := by
      simp [furtherArgumentsText]
    have hclosing : Closing (furtherArgumentsText spelling args ++ ')' :: rest) := by
      cases args <;> simp [furtherArgumentsText, Closing]
    have hread : Reads nested
        (' ' :: (a.text spelling ++ (furtherArgumentsText spelling args ++ ')' :: rest))) a
        (furtherArgumentsText spelling args ++ ')' :: rest) :=
      ha.reads (by rw [skip_space, ha.skip_text]) hclosing (by simp)
    rw [hinput]
    refine Reads.many ((reads_tag rfl).bind hread) ?_
      (ih fun a ha => hargs a (List.mem_cons_of_mem _ ha))
    simp only [List.length_cons, List.length_append]
    omega

/-- **Arguments are read back.** -/
theorem reads_argumentsText (hargs : ∀ a ∈ args, ReadsInside nested spelling a)
    (hnone : ∀ cs, Fails nested (')' :: cs)) (rest : List Char) :
    Reads (separated (tag ",") nested) (argumentsText spelling args ++ ')' :: rest) args
      (')' :: rest) := by
  cases args with
  | nil => exact (hnone rest).optional.bind reads_pure
  | cons a args =>
    have ha := hargs a (List.mem_cons_self ..)
    have hinput : argumentsText spelling (a :: args) ++ ')' :: rest =
        a.text spelling ++ (furtherArgumentsText spelling args ++ ')' :: rest) := by
      simp [argumentsText]
    have hclosing : Closing (furtherArgumentsText spelling args ++ ')' :: rest) := by
      cases args <;> simp [furtherArgumentsText, Closing]
    have hfirst : Reads nested (a.text spelling ++ (furtherArgumentsText spelling args ++
        ')' :: rest)) a (furtherArgumentsText spelling args ++ ')' :: rest) :=
      ha.reads (ha.skip_text _) hclosing (by simp)
    rw [hinput]
    exact hfirst.optional.bind ((reads_furtherArgumentsText
      (fun a ha => hargs a (List.mem_cons_of_mem _ ha)) rest).bind reads_pure)

theorem reads_functionCall {f : QName} (hf : f.IsWritten)
    (hname : f.qualifier = none → f.name ∉ nodeTypeNames)
    (hargs : Reads (separated (tag ",") nested) input args (')' :: rest)) :
    Reads (functionCall nested) (f.text.toList ++ '(' :: input) (.call f args) (skip rest) := by
  have hread : Reads qualifiedName (f.text.toList ++ '(' :: input) f ('(' :: input) :=
    reads_qualifiedName hf (by simp; decide) (by simp)
  have hopen : Reads (tag "(") ('(' :: input) () input := reads_tag rfl
  have hpeek : Reads (peek (token (tag "("))) ('(' :: input) () ('(' :: input) :=
    reads_peek (reads_openBracket input)
  have hbody : Reads (do
      blanks
      tag "("
      let args ← separated (tag ",") nested
      token (tag ")")
      pure (Expr.call f args)) ('(' :: input) (.call f args) (skip rest) :=
    reads_blanks.bind (hopen.bind (hargs.bind ((reads_closeBracket rest).bind reads_pure)))
  rw [Reads] at hread hpeek hbody
  have hcall : ¬(f.qualifier.isNone && nodeTypeNames.contains f.name) = true := by simpa using hname
  simp only [Reads, functionCall, hread, hpeek, bind, Except.bind]
  rw [if_neg hcall]
  exact hbody

theorem reads_call {f : QName} (hf : f.IsWritten)
    (hname : f.qualifier = none → f.name ∉ nodeTypeNames)
    (hargs : ∀ a ∈ args, ReadsInside nested spelling a) (hnone : ∀ cs, Fails nested (')' :: cs))
    (rest : List Char) :
    Reads (primary nested)
      (f.text.toList ++ '(' :: (argumentsText spelling args ++ ')' :: rest)) (.call f args)
      (skip rest) := by
  have hcall := reads_functionCall hf hname (reads_argumentsText hargs hnone rest)
  obtain ⟨c, cs, hcs, hc⟩ := exists_cons_of_isWritten hf
  have hskip : skip (f.text.toList ++ '(' :: (argumentsText spelling args ++ ')' :: rest)) =
      f.text.toList ++ '(' :: (argumentsText spelling args ++ ')' :: rest) :=
    skip_eq_self (by simpa [hcs] using isTokenBlank_of_isNameStart hc)
  rw [← hskip] at hcall
  have hprimary := reads_primary_of_front
    (by rw [hskip, hcs]; simpa using isPlainFront_of_isNameStart hc) hcall.orElse
  rwa [skip_skip] at hprimary

/-! ## Paths -/

theorem reads_pathExpr_of_primary (h : Reads (primary nested) input e (skip rest))
    (hrest : Follow 9 rest) : Reads (pathExpr nested) input e (skip rest) := by
  have hfiltered : Reads (filtered nested) input e (skip rest) :=
    h.bind ((fails_predicate (by simpa using fun c hc => (hrest.next c hc).1)).many.bind reads_pure)
  have hmore : Reads (furtherSteps nested) (skip rest) [] (skip rest) :=
    (fails_furtherStep_of_next fun c hc => (hrest.next c hc).2.1).many.bind reads_pure
  exact hfiltered.orElse.bind (hmore.bind reads_pure)

theorem reads_filterText (he : ReadsInside nested spelling e)
    (hps : ∀ p ∈ ps, ReadsInside nested spelling p) (hne : ps ≠ []) (hrest : Follow 9 rest) :
    Reads (pathExpr nested)
      ('(' :: (e.text spelling ++ ')' :: (predicatesText spelling ps ++ rest))) (.filter e ps)
      (skip rest) := by
  have hpredicates := reads_predicatesText hps fun c hc => (hrest.next c hc).1
  have hfiltered : Reads (filtered nested)
      ('(' :: (e.text spelling ++ ')' :: (predicatesText spelling ps ++ rest))) (.filter e ps)
      (skip rest) := by
    refine (reads_bracketed he _).bind (hpredicates.bind ?_)
    rw [if_neg (by simpa using hne)]
    exact reads_pure
  have hmore : Reads (furtherSteps nested) (skip rest) [] (skip rest) :=
    (fails_furtherStep_of_next fun c hc => (hrest.next c hc).2.1).many.bind reads_pure
  exact hfiltered.orElse.bind (hmore.bind reads_pure)

theorem reads_valuePathText (he : ReadsInside nested spelling e) (hpath : e.isPath = false)
    (hsteps : StepsInside nested spelling steps) (hne : steps ≠ []) (hrest : Follow 9 rest) :
    Reads (pathExpr nested)
      ('(' :: (e.text spelling ++ ')' :: (stepsText spelling steps ++ rest)))
      (.path (.value e) steps) (skip rest) := by
  have hnext : ∀ c ∈ (skip (stepsText spelling steps ++ rest)).head?, c ≠ '[' :=
    next_stepsText hrest.stepsEnd steps
  have hfiltered : Reads (filtered nested)
      ('(' :: (e.text spelling ++ ')' :: (stepsText spelling steps ++ rest))) e
      (skip (stepsText spelling steps ++ rest)) :=
    (reads_bracketed he _).bind ((fails_predicate (by simpa using hnext)).many.bind reads_pure)
  refine hfiltered.orElse.bind ((reads_stepsText hsteps hrest.stepsEnd).bind ?_)
  rw [if_neg (by simpa using hne)]
  cases e with
  | path => simp [Expr.isPath] at hpath
  | _ => exact reads_pure

/-- No primary expression starts with a slash. -/
theorem fails_filtered_slash (cs : List Char) : Fails (filtered nested) ('/' :: cs) := by
  have hskip : skip ('/' :: cs) = '/' :: cs := rfl
  have hcall : Fails (functionCall nested) ('/' :: cs) :=
    fails_functionCall_of_head (by simp; decide)
  refine (fails_primary_of_front (by simp [hskip, isPlainFront]) ?_).bind
  rw [hskip]
  exact hcall.orElse_fails (fails_tag_of_head (d := '(') rfl (by decide)).bind

/-- A path that starts with the name of an axis is no call. -/
theorem fails_filtered_axis (a : Axis) (cs : List Char) :
    Fails (filtered nested) (a.text.toList ++ ':' :: ':' :: cs) := by
  have hname := isName_axis a
  obtain ⟨c, ds, hcs, hc⟩ := exists_cons_of_isName hname
  have hskip := skip_name hname (':' :: ':' :: cs)
  have hcall : Fails (functionCall nested) (a.text.toList ++ ':' :: ':' :: cs) := by
    have hsecond : Fails (do tag ":"; nameText) (':' :: ':' :: cs) :=
      (reads_tag rfl).bind_fails (fails_nameText (by simp; decide))
    have hread : Reads qualifiedName (a.text.toList ++ ':' :: ':' :: cs) ⟨none, a.text⟩
        (':' :: ':' :: cs) :=
      (reads_nameText hname (by simp; decide)).bind (hsecond.optional.bind reads_pure)
    obtain ⟨at_, hopen⟩ : Fails (token (tag "(")) (':' :: ':' :: cs) :=
      Fails.token (fails_tag_of_head (d := '(') rfl (by decide))
    rw [Reads] at hread
    refine ⟨at_, ?_⟩
    simp only [functionCall, hread, peek, hopen, bind, Except.bind]
  have hbracketed : Fails (bracketed nested) (a.text.toList ++ ':' :: ':' :: cs) :=
    (fails_tag_name hname (d := '(') rfl (by decide)).bind
  refine Fails.bind (fails_primary_of_front ?_ ?_)
  · rw [hskip, hcs]
    simpa using isPlainFront_of_isNameStart hc
  · rw [hskip]
    exact hcall.orElse_fails hbracketed

/-- **Steps are read back** from behind a first slash. -/
theorem reads_locationPath_here {step : Step} (hsteps : StepsInside nested spelling (step :: steps))
    (hrest : StepsEnd rest) :
    Reads (locationPath nested) ((stepsText spelling (step :: steps)).drop 1 ++ rest)
      (.here, step :: steps) (skip rest) := by
  obtain ⟨axis, test, predicates⟩ := step
  obtain ⟨htest, hpredicates⟩ := hsteps _ (List.mem_cons_self ..)
  have hfirst := reads_stepText (a := axis) htest hpredicates hrest steps
  have hmore := reads_stepsText (fun step hs => hsteps step (List.mem_cons_of_mem _ hs)) hrest
  have hinput : (stepsText spelling (.mk axis test predicates :: steps)).drop 1 ++ rest =
      axis.text.toList ++ ':' :: ':' :: (test.text ++ (predicatesText spelling predicates ++
        (stepsText spelling steps ++ rest))) := by simp [stepsText]
  have hslash {s : String} (hs : s.toList.head? = some '/') (cs : List Char) :
      Fails (tag s) (axis.text.toList ++ cs) :=
    fails_tag_name (isName_axis axis) hs (by decide)
  rw [hinput]
  exact (hslash rfl _).optional.bind ((hslash rfl _).optional.bind
    (hfirst.bind (hmore.bind reads_pure)))

theorem reads_locationPath_root {step : Step} (hsteps : StepsInside nested spelling (step :: steps))
    (hrest : StepsEnd rest) :
    Reads (locationPath nested) (stepsText spelling (step :: steps) ++ rest)
      (.root, step :: steps) (skip rest) := by
  obtain ⟨axis, test, predicates⟩ := step
  obtain ⟨htest, hpredicates⟩ := hsteps _ (List.mem_cons_self ..)
  have hfirst := reads_stepText (a := axis) htest hpredicates hrest steps
  have hmore := reads_stepsText (fun step hs => hsteps step (List.mem_cons_of_mem _ hs)) hrest
  have hinput : stepsText spelling (.mk axis test predicates :: steps) ++ rest =
      '/' :: (axis.text.toList ++ ':' :: ':' :: (test.text ++ (predicatesText spelling predicates ++
        (stepsText spelling steps ++ rest)))) := by simp [stepsText]
  rw [hinput]
  exact (fails_doubleSlash_axis axis _).optional.bind ((reads_tag rfl).optional.bind
    (hfirst.optional.bind (hmore.bind reads_pure)))

/-- A path that is no primary expression and takes all its steps is the whole expression. -/
theorem reads_pathExpr_of_locationPath {start : Start} (hfiltered : Fails (filtered nested) input)
    (h : Reads (locationPath nested) input (start, steps) (skip rest))
    (hrest : ∀ c ∈ (skip rest).head?, c ≠ '/') :
    Reads (pathExpr nested) input (.path start steps) (skip rest) := by
  have hmore : Reads (furtherSteps nested) (skip rest) [] (skip rest) :=
    (fails_furtherStep_of_next hrest).many.bind reads_pure
  exact (hfiltered.orElse (h.bind reads_pure)).bind (hmore.bind reads_pure)

theorem reads_herePathText {step : Step} (hsteps : StepsInside nested spelling (step :: steps))
    (hrest : StepsEnd rest) :
    Reads (pathExpr nested) ((stepsText spelling (step :: steps)).drop 1 ++ rest)
      (.path .here (step :: steps)) (skip rest) := by
  refine reads_pathExpr_of_locationPath ?_ (reads_locationPath_here hsteps hrest)
    fun c hc => (hrest.next c hc).2
  obtain ⟨axis, test, predicates⟩ := step
  simpa [stepsText] using fails_filtered_axis axis _

theorem reads_rootPathText {step : Step} (hsteps : StepsInside nested spelling (step :: steps))
    (hrest : StepsEnd rest) :
    Reads (pathExpr nested) (stepsText spelling (step :: steps) ++ rest)
      (.path .root (step :: steps)) (skip rest) := by
  refine reads_pathExpr_of_locationPath ?_ (reads_locationPath_root hsteps hrest)
    fun c hc => (hrest.next c hc).2
  obtain ⟨axis, test, predicates⟩ := step
  exact fails_filtered_slash _

/-- No step starts with what closes an expression. -/
theorem fails_step_closing (hrest : Closing rest) : Fails (step nested) rest := by
  have hstart : ∀ c ∈ rest.head?, isNameStart c = false := by
    intro c hc
    rcases hrest c hc with rfl | rfl | rfl <;> decide
  have htag {s : String} {d : Char} (hs : s.toList.head? = some d)
      (hd : d ≠ ']' ∧ d ≠ ')' ∧ d ≠ ',') : Fails (tag s) rest := by
    refine fails_tag_of_head_ne hs fun c hc => ?_
    rcases hrest c hc with rfl | rfl | rfl
    · exact hd.1.symm
    · exact hd.2.1.symm
    · exact hd.2.2.symm
  have haxis : Fails axis rest := by
    refine (fails_oneOf fun w hw => ?_).bind
    obtain ⟨a, -, rfl⟩ := List.mem_map.1 hw
    cases a <;> exact htag rfl (by decide)
  have htype : Fails nodeTypeTest rest := by
    refine (htag (d := 'p') rfl (by decide)).bind.orElse_fails (fails_oneOf ?_).bind
    simp only [List.forall_mem_cons]
    exact ⟨htag (d := 't') rfl (by decide), htag (d := 'n') rfl (by decide),
      htag (d := 'c') rfl (by decide), htag (d := 'p') rfl (by decide), by simp⟩
  have htest : Fails nodeTest rest :=
    (htag (d := '*') rfl (by decide)).bind.orElse_fails (htype.orElse_fails
      ((fails_nameText hstart).bind.orElse_fails (fails_nameText hstart).bind.bind))
  have hhead : Fails stepHead rest :=
    (htag (d := '.') rfl (by decide)).bind.orElse_fails
      ((htag (d := '.') rfl (by decide)).bind.orElse_fails
        ((htag (d := '@') rfl (by decide)).bind.orElse_fails
          (haxis.optional.bind_fails htest.bind)))
  refine (Fails.token ?_).bind
  rwa [hrest.skip]

theorem reads_rootText (hrest : Closing rest) :
    Reads (pathExpr nested) ('/' :: rest) (.path .root []) (skip rest) := by
  have hlocation : Reads (locationPath nested) ('/' :: rest) (.root, []) rest := by
    have hdouble : Fails (tag "//") ('/' :: rest) := fails_tag fun hp => by
      rw [show "//".toList = ['/', '/'] from rfl, List.cons_prefix_cons] at hp
      obtain ⟨cs, hcs⟩ := hp.2
      rcases hrest '/' (by simp [← hcs]) with h | h | h <;> revert h <;> decide
    exact hdouble.optional.bind ((reads_tag rfl).optional.bind
      ((fails_step_closing hrest).optional.bind reads_pure))
  refine reads_pathExpr_of_locationPath (fails_filtered_slash rest) (by rwa [hrest.skip])
    fun c hc => ?_
  rw [hrest.skip] at hc
  rcases hrest c hc with rfl | rfl | rfl <;> decide

/-- No expression starts with a closing bracket. -/
theorem fails_expression_bracket (depth : Nat) (cs : List Char) :
    Fails (expression depth) (')' :: cs) := by
  cases depth with
  | zero => exact ⟨_, rfl⟩
  | succ depth =>
    have hclosing : Closing (')' :: cs) := by simp [Closing]
    have htag {s : String} {d : Char} (hs : s.toList.head? = some d) (hd : ')' ≠ d) :
        Fails (tag s) (')' :: cs) := fails_tag_of_head hs hd
    have hfiltered : Fails (filtered (expression depth)) (')' :: cs) := by
      have hcall : Fails (functionCall (expression depth)) (')' :: cs) :=
        fails_functionCall_of_head (by simp; decide)
      refine (fails_primary_of_front (by simp [hclosing.skip, isPlainFront]) ?_).bind
      rw [hclosing.skip]
      exact hcall.orElse_fails (htag (d := '(') rfl (by decide)).bind
    have hlocation : Fails (locationPath (expression depth)) (')' :: cs) :=
      (htag (d := '/') rfl (by decide)).optional.bind_fails
        ((htag (d := '/') rfl (by decide)).optional.bind_fails (fails_step_closing hclosing).bind)
    have hpath : Fails (pathExpr (expression depth)) (')' :: cs) :=
      (hfiltered.orElse_fails hlocation.bind).bind
    have hunary : Fails (unaryExpr (expression depth)) (')' :: cs) := by
      have hsign : Fails (token (tag "-")) (')' :: cs) :=
        Fails.token (by rw [hclosing.skip]; exact htag (d := '-') rfl (by decide))
      exact hsign.many.bind_fails hpath.bind.bind
    refine Fails.token ?_
    rw [hclosing.skip]
    exact hunary.bind.bind.bind.bind.bind.bind

/-! ## Whole texts -/

/-- A path, literal or call is read as an expression where nothing but a closing sign follows. -/
theorem reads_orExpr_of_pathExpr (h : Reads (pathExpr nested) input e (skip rest))
    (hrest : Closing rest) (hminus : Fails (tag "-") (skip input)) :
    Reads (orExpr nested) input e rest := by
  have hread : Reads (orExpr nested) input e (skip rest) :=
    reads_rule_of_le (k := 1) le_rfl (by omega) le_rfl h (hrest.follow 1) fun _ => hminus
  rwa [hrest.skip] at hread

theorem parse_of_reads {cs : List Char} (hcs : Text.trimEnd cs = cs) (hskip : skip cs = cs)
    (h : Reads (orExpr (expression cs.length)) cs e []) : parse (String.ofList cs) = .ok e := by
  have hread : Reads (expression (cs.length + 1)) cs e (skip []) :=
    Reads.token (hskip.symm ▸ h)
  rw [Reads] at hread
  rw [parse, String.toList_ofList, hcs, hread]
  rfl

end PathQuery.Grammar
