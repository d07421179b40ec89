import PathQuery.Proofs.WellFormed

/-!
# Canonical texts

Every expression that is read from a text has a canonical text: operators stand between blanks,
brackets stand only where precedence and grouping to the left need them, every step names its axis,
and the expressions in filters and at the start of paths are in brackets.

* names: `Literal.IsWrittenAs`, `Spelling`, `BinaryOp.level`, `Expr.level`, `Expr.text`,
  `Grammar.canonical`; `Expr.atEnd`: the expression with a last number cut.
* **`trimEnd_text`**: no blank stands at the end of a canonical text.
-/

open PathQuery.Parser

namespace PathQuery

/-! ## Decimal literals -/

namespace Number.Literal

/-- The written form; a fraction without digits has no point. -/
def text (l : Literal) : List Char :=
  l.whole ++ if l.fraction.isEmpty then [] else '.' :: l.fraction

/-- What is read of a literal at the end of a text. -/
def atEnd (l : Literal) : Literal := if l.whole.isEmpty then l else ⟨l.whole, []⟩

variable {l : Literal} {u : List Char}

theorem atEnd_eq_self (h : l.whole = [] ∨ l.fraction = []) : l.atEnd = l := by
  obtain ⟨whole, fraction⟩ := l
  rcases h with h | h <;> cases h <;> simp [atEnd]

theorem IsProper.whole (h : l.IsProper) : ∀ c ∈ l.whole, c.isDigit = true :=
  fun c hc => h.1 c (List.mem_append_left _ hc)

theorem IsProper.fraction (h : l.IsProper) : ∀ c ∈ l.fraction, c.isDigit = true :=
  fun c hc => h.1 c (List.mem_append_right _ hc)

/-- The literal is written so; a point without digits behind it may stand. -/
def IsWrittenAs (l : Literal) (u : List Char) : Prop :=
  l.IsProper ∧ (u = l.text ∨ u = l.whole ++ '.' :: l.fraction)

theorem isWrittenAs_iff : l.IsWrittenAs u ↔
    l.IsProper ∧ (l.fraction = [] ∧ u = l.whole ∨ u = l.whole ++ '.' :: l.fraction) := by
  rw [IsWrittenAs, text]
  cases l.fraction <;> simp

end Number.Literal

/-- A literal for every number that has one. -/
structure Spelling where
  literal : Float → Number.Literal
  proper {l : Number.Literal} (hl : l.IsProper) : (literal l.value).IsProper
  value {l : Number.Literal} (hl : l.IsProper) : (literal l.value).value = l.value

open Classical in
/-- A literal of a number: `l` for its own value, and any one that there is for other numbers. -/
noncomputable def Number.Literal.orAny (l : Literal) (x : Float) : Literal :=
  if x = l.value then l
  else if h : ∃ l' : Literal, l'.IsProper ∧ l'.value = x then h.choose else l

theorem Number.Literal.orAny_value (l : Literal) : l.orAny l.value = l := if_pos rfl

theorem Number.Literal.orAny_spec {l l' : Literal} (hl : l.IsProper) (hl' : l'.IsProper) :
    (l.orAny l'.value).IsProper ∧ (l.orAny l'.value).value = l'.value := by
  by_cases heq : l'.value = l.value
  · rw [heq, orAny_value]
    exact ⟨hl, rfl⟩
  · have h : ∃ l'' : Literal, l''.IsProper ∧ l''.value = l'.value := ⟨l', hl', rfl⟩
    rw [orAny, if_neg heq, dif_pos h]
    exact h.choose_spec

/-- A spelling that writes one number in a given way. -/
noncomputable def Spelling.prefer (l : Number.Literal) (hl : l.IsProper) : Spelling where
  literal := l.orAny
  proper hl' := (Number.Literal.orAny_spec hl hl').1
  value hl' := (Number.Literal.orAny_spec hl hl').2

/-! ## Precedence -/

namespace BinaryOp

/-- How tightly an operator binds. A minus sign has level 7, and paths have level 9. -/
def level : BinaryOp → Nat
  | or => 1
  | and => 2
  | equal | notEqual => 3
  | less | lessEqual | greater | greaterEqual => 4
  | add | subtract => 5
  | multiply | divide | modulo => 6
  | union => 8

/-- The written form. -/
def text : BinaryOp → String
  | or => "or"
  | and => "and"
  | equal => "="
  | notEqual => "!="
  | less => "<"
  | lessEqual => "<="
  | greater => ">"
  | greaterEqual => ">="
  | add => "+"
  | subtract => "-"
  | multiply => "*"
  | divide => "div"
  | modulo => "mod"
  | union => "|"

end BinaryOp

/-- How tightly an expression holds together. The root alone is no operand, since what follows its
slash would be read as a step. -/
def Expr.level : Expr → Nat
  | .binary op _ _ => op.level
  | .negate _ => 7
  | .path .root [] => 0
  | _ => 9

/-- The text of an operand where so high a level is needed. -/
def inBrackets (needed level : Nat) (text : List Char) : List Char :=
  if level < needed then '(' :: (text ++ [')']) else text

/-! ## Texts -/

/-- A text in a quote that it does not contain. -/
def quoted (s : String) : List Char :=
  if '\'' ∈ s.toList then '"' :: (s.toList ++ ['"']) else '\'' :: (s.toList ++ ['\''])

/-- The word for a node type. -/
def NodeType.word : NodeType → String
  | text => "text"
  | node => "node"
  | comment => "comment"
  | instruction => "processing-instruction"

/-- The written form of a node test. -/
def NodeTest.text : NodeTest → List Char
  | .name q => q.text.toList
  | .type t => t.word.toList ++ ['(', ')']
  | .target s => NodeType.instruction.word.toList ++ '(' :: (quoted s ++ [')'])

section Texts

variable (spelling : Spelling)

mutual

/-- The canonical text of an expression that stands alone. -/
def Expr.text : Expr → List Char
  | .literal s => quoted s
  | .number x => (spelling.literal x).text
  | .variable q => '$' :: q.text.toList
  | .call f args => f.text.toList ++ '(' :: (argumentsText args ++ [')'])
  | .filter base predicates => '(' :: (base.text ++ ')' :: predicatesText predicates)
  | .binary op left right =>
    inBrackets op.level left.level left.text ++
      ' ' :: (op.text.toList ++ ' ' :: inBrackets (op.level + 1) right.level right.text)
  | .negate e => '-' :: inBrackets 7 e.level e.text
  | .path start steps => start.text steps.isEmpty (stepsText steps)

/-- The arguments of a call. -/
def argumentsText : List Expr → List Char
  | [] => []
  | e :: es => e.text ++ furtherArgumentsText es

/-- The arguments after the first one. -/
def furtherArgumentsText : List Expr → List Char
  | [] => []
  | e :: es => ',' :: ' ' :: (e.text ++ furtherArgumentsText es)

/-- Predicates one after another. -/
def predicatesText : List Expr → List Char
  | [] => []
  | e :: es => '[' :: (e.text ++ ']' :: predicatesText es)

/-- The text of a path, from that of its steps with a slash before each. -/
def Start.text : Start → Bool → List Char → List Char
  | .here, _, steps => steps.drop 1
  | .root, isEmpty, steps => if isEmpty then ['/'] else steps
  | .value e, _, steps => '(' :: (e.text ++ ')' :: steps)

/-- Steps with a slash before each. -/
def stepsText : List Step → List Char
  | [] => []
  | .mk axis test predicates :: steps =>
    '/' :: (axis.text.toList ++ ':' :: ':' :: (test.text ++ (predicatesText predicates ++
      stepsText steps)))

end

end Texts

/-- **The canonical text of an expression.** -/
def Grammar.canonical (spelling : Spelling) (e : Expr) : String := String.ofList (e.text spelling)

/-- What is read of the canonical text of an expression at the end of a text: a number that comes
last there loses its fraction. -/
def Expr.atEnd (spelling : Spelling) : Expr → Expr
  | .number x => .number (spelling.literal x).atEnd.value
  | .binary op left right =>
    .binary op left (if right.level < op.level + 1 then right else right.atEnd spelling)
  | .negate e => .negate (if e.level < 7 then e else e.atEnd spelling)
  | e => e

/-- The number at the end of the canonical text of an expression. -/
def Expr.lastNumber? : Expr → Option Float
  | .number x => some x
  | .binary op _ right => if right.level < op.level + 1 then none else right.lastNumber?
  | .negate e => if e.level < 7 then none else e.lastNumber?
  | _ => none

/-- Only a last number that is written with whole digits and a fraction is cut. -/
theorem Expr.atEnd_eq_self {spelling : Spelling} (e : Expr) (he : e.WellFormed)
    (h : ∀ x ∈ e.lastNumber?,
      (spelling.literal x).whole = [] ∨ (spelling.literal x).fraction = []) :
    e.atEnd spelling = e := by
  cases e with
  | number x =>
    obtain ⟨l, hl, rfl⟩ := he
    rw [Expr.atEnd, Number.Literal.atEnd_eq_self (h l.value rfl), spelling.value hl]
  | binary op left right =>
    rw [lastNumber?] at h
    rw [Expr.atEnd]
    split
    · rfl
    · next hlevel =>
      rw [if_neg hlevel] at h
      rw [atEnd_eq_self right he.2 h]
  | negate e =>
    rw [lastNumber?] at h
    rw [Expr.atEnd]
    split
    · rfl
    · next hlevel =>
      rw [if_neg hlevel] at h
      rw [atEnd_eq_self e he h]
  | _ => rfl

namespace Grammar

/-! ## Texts inside others -/

section Lengths

variable {spelling : Spelling} {e : Expr}

theorem length_le_argumentsText {es : List Expr} (he : e ∈ es) :
    (e.text spelling).length ≤ (argumentsText spelling es).length := by
  have hfurther {es : List Expr} (he : e ∈ es) :
      (e.text spelling).length ≤ (furtherArgumentsText spelling es).length := by
    induction es with
    | nil => cases he
    | cons e' es ih =>
      simp only [furtherArgumentsText, List.length_cons, List.length_append]
      rcases List.mem_cons.1 he with rfl | he
      · omega
      · have := ih he
        omega
  cases es with
  | nil => cases he
  | cons e' es =>
    simp only [argumentsText, List.length_append]
    rcases List.mem_cons.1 he with rfl | he
    · omega
    · have := hfurther he
      omega

theorem length_le_predicatesText {es : List Expr} (he : e ∈ es) :
    (e.text spelling).length ≤ (predicatesText spelling es).length := by
  induction es with
  | nil => cases he
  | cons e' es ih =>
    simp only [predicatesText, List.length_cons, List.length_append]
    rcases List.mem_cons.1 he with rfl | he
    · omega
    · have := ih he
      omega

theorem length_le_stepsText {steps : List Step} {step : Step} (hstep : step ∈ steps)
    (he : e ∈ step.predicates) :
    (e.text spelling).length + 2 ≤ (stepsText spelling steps).length := by
  induction steps with
  | nil => cases hstep
  | cons step' steps ih =>
    obtain ⟨axis, test, predicates⟩ := step'
    simp only [stepsText, List.length_cons, List.length_append]
    rcases List.mem_cons.1 hstep with rfl | hstep
    · have : (e.text spelling).length ≤ (predicatesText spelling predicates).length :=
        length_le_predicatesText he
      omega
    · have := ih hstep
      omega

end Lengths

/-! ## The end of a canonical text -/

/-- The text ends with a character that is no blank. -/
def EndsVisibly (cs : List Char) : Prop := ∃ ds c, cs = ds ++ [c] ∧ Text.isBlank c = false

variable {cs : List Char}

theorem EndsVisibly.append (h : EndsVisibly cs) (ds : List Char) : EndsVisibly (ds ++ cs) := by
  obtain ⟨es, c, rfl, hc⟩ := h
  exact ⟨ds ++ es, c, by simp, hc⟩

theorem EndsVisibly.cons (h : EndsVisibly cs) (c : Char) : EndsVisibly (c :: cs) := h.append [c]

theorem endsVisibly_last (ds : List Char) {c : Char} (hc : Text.isBlank c = false) :
    EndsVisibly (ds ++ [c]) := ⟨ds, c, rfl, hc⟩

theorem EndsVisibly.trimEnd (h : EndsVisibly cs) : Text.trimEnd cs = cs := by
  obtain ⟨ds, c, rfl, hc⟩ := h
  exact trimEnd_eq_self (by simpa using hc)

theorem endsVisibly_of_all (hne : cs ≠ []) (h : ∀ c ∈ cs, Text.isBlank c = false) :
    EndsVisibly cs :=
  ⟨cs.dropLast, cs.getLast hne, (List.dropLast_concat_getLast hne).symm, h _ (List.getLast_mem hne)⟩

theorem endsVisibly_name {name : String} (h : IsName name) : EndsVisibly name.toList := by
  obtain ⟨c, cs, hcs, -⟩ := exists_cons_of_isName h
  refine endsVisibly_of_all (by simp [hcs]) fun c hc => ?_
  by_contra hb
  exact not_mem_of_isOutside h (isOutside_of_isBlank (by simpa using hb)) hc

theorem endsVisibly_qualified {q : QName} (h : EndsVisibly q.name.toList) :
    EndsVisibly q.text.toList := by
  obtain ⟨qualifier, name⟩ := q
  cases qualifier with
  | none => exact h
  | some qualifier => simpa [QName.text] using (h.cons ':').append qualifier.toList

theorem endsVisibly_number {l : Number.Literal} (hl : l.IsProper) : EndsVisibly l.text := by
  obtain ⟨whole, fraction⟩ := l
  obtain ⟨hdigits, hne⟩ := hl
  cases fraction with
  | nil =>
    have hends : EndsVisibly whole := endsVisibly_of_all (by simpa using hne)
      fun c hc => isBlank_of_isDigit (hdigits c (by simpa using hc))
    simpa [Number.Literal.text] using hends
  | cons f fs =>
    have hends : EndsVisibly (f :: fs) := endsVisibly_of_all (List.cons_ne_nil f fs)
      fun c hc => isBlank_of_isDigit (hdigits c (List.mem_append_right _ hc))
    simpa [Number.Literal.text] using (hends.cons '.').append whole

theorem endsVisibly_quoted (s : String) : EndsVisibly (quoted s) := by
  rw [quoted]
  split
  · exact endsVisibly_last ('"' :: s.toList) rfl
  · exact endsVisibly_last ('\'' :: s.toList) rfl

theorem endsVisibly_test {t : NodeTest} (ht : t.WellFormed) : EndsVisibly t.text := by
  cases t with
  | name q =>
    refine endsVisibly_qualified ?_
    rcases ht with hq | ⟨hname, -⟩
    · exact endsVisibly_name hq.1
    · exact hname ▸ endsVisibly_last [] rfl
  | type t => exact (endsVisibly_last ['('] rfl).append _
  | target s => exact ((endsVisibly_last (quoted s) rfl).cons '(').append _

variable {spelling : Spelling}

theorem endsVisibly_predicates {ps : List Expr} (hne : ps ≠ []) :
    EndsVisibly (predicatesText spelling ps) := by
  induction ps with
  | nil => exact absurd rfl hne
  | cons p ps ih =>
    refine (EndsVisibly.append ?_ _).cons '['
    cases ps with
    | nil => exact endsVisibly_last [] rfl
    | cons p' ps => exact (ih (by simp)).cons ']'

theorem endsVisibly_steps {steps : List Step} (hsteps : Step.AllWellFormed steps)
    (hne : steps ≠ []) : EndsVisibly ((stepsText spelling steps).drop 1) := by
  induction steps with
  | nil => exact absurd rfl hne
  | cons step steps ih =>
    obtain ⟨axis, test, predicates⟩ := step
    obtain ⟨htest, -, hsteps⟩ := hsteps
    have hrest : EndsVisibly
        (test.text ++ (predicatesText spelling predicates ++ stepsText spelling steps)) := by
      cases steps with
      | nil =>
        cases predicates with
        | nil => simpa [predicatesText, stepsText] using endsVisibly_test htest
        | cons p ps =>
          have hps : EndsVisibly (predicatesText spelling (p :: ps)) :=
            endsVisibly_predicates (List.cons_ne_nil p ps)
          simpa [stepsText] using hps.append test.text
      | cons step steps =>
        obtain ⟨axis', test', predicates'⟩ := step
        exact (((ih hsteps (List.cons_ne_nil _ _)).cons '/').append _).append _
    exact ((hrest.cons ':').cons ':').append _

theorem endsVisibly_operand {e : Expr} (k : Nat) (h : EndsVisibly (e.text spelling)) :
    EndsVisibly (inBrackets k e.level (e.text spelling)) := by
  rw [inBrackets]
  split
  · exact endsVisibly_last ('(' :: e.text spelling) rfl
  · exact h

theorem endsVisibly_text (e : Expr) (he : e.WellFormed) : EndsVisibly (e.text spelling) := by
  cases e with
  | literal s => exact endsVisibly_quoted s
  | number x =>
    obtain ⟨l, hl, rfl⟩ := he
    exact endsVisibly_number (spelling.proper hl)
  | «variable» q => exact (endsVisibly_qualified (endsVisibly_name he.1)).cons '$'
  | call f args => exact ((endsVisibly_last (argumentsText spelling args) rfl).cons '(').append _
  | filter base ps => exact (((endsVisibly_predicates he.2.1).cons ')').append _).cons '('
  | binary op left right =>
    have hright := endsVisibly_operand (op.level + 1) (endsVisibly_text right he.2)
    exact (((hright.cons ' ').append _).cons ' ').append _
  | negate e => exact (endsVisibly_operand 7 (endsVisibly_text e he)).cons '-'
  | path start steps =>
    obtain ⟨hstart, hsteps⟩ := he
    cases steps with
    | nil =>
      cases start with
      | here => cases hstart
      | root => exact endsVisibly_last [] rfl
      | value e => cases hstart.1
    | cons step steps =>
      have hends : EndsVisibly ((stepsText spelling (step :: steps)).drop 1) :=
        endsVisibly_steps hsteps (List.cons_ne_nil _ _)
      obtain ⟨axis, test, predicates⟩ := step
      cases start with
      | here => exact hends
      | root => exact hends.cons '/'
      | value e => exact (((hends.cons '/').cons ')').append _).cons '('

/-- **No blank stands at the end of a canonical text.** -/
theorem trimEnd_text {e : Expr} (he : e.WellFormed) :
    Text.trimEnd (e.text spelling) = e.text spelling := (endsVisibly_text e he).trimEnd

end Grammar

end PathQuery
