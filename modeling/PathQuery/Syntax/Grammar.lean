import PathQuery.Number.Literal
import PathQuery.Syntax.Expr
import PathQuery.Syntax.Fault
import PathQuery.Syntax.Parser
import PathQuery.Text.Letter

/-!
# The grammar of path expressions

Every rule takes the parser of nested expressions as its argument; `expression` ties the knot. An
expression nested in another stands behind an opening bracket, so the length of the text bounds the
nesting.

* names: `nameText`, `qualifiedName`, `nodeTest`, `axis`, `predicate`, `step`, `locationPath`,
  `primary`, `filtered`, `pathExpr`, `leftAssoc`, `orExpr`, `expression`.
* **`parse`** reads a whole text.
-/

namespace PathQuery.Grammar

open PathQuery.Parser

/-! ## Names -/

/-- A character that may begin a name. -/
def isNameStart (c : Char) : Bool := Text.isLetter c || c == '_'

/-- A character that may stand in a name. -/
def isNameChar (c : Char) : Bool :=
  Text.isLetterOrNumeral c || c == '_' || c == '-' || c == '.'

/-- A name without a colon. -/
def nameText : Parser String := do
  let first ← takeWhile1 isNameStart
  let rest ← takeWhile isNameChar
  pure (String.ofList (first ++ rest))

/-- A name with an optional qualifier. -/
def qualifiedName : Parser QName := do
  let first ← nameText
  match ← optional (do tag ":"; nameText) with
  | some second => pure ⟨some first, second⟩
  | none => pure ⟨none, first⟩

/-- A word that is not the beginning of a longer name. -/
def keyword (word : String) : Parser Unit := do
  tag word
  notFollowed (takeWhile1 isNameChar)

/-! ## Literals -/

/-- A decimal literal. -/
def numberLiteral : Parser Float := fun input =>
  match Number.Literal.read? input with
  | some (l, rest) => .ok (l.value, rest)
  | none => .error input

/-- A text between two equal quotes. -/
def quotedBy (quote : String) (c : Char) : Parser String := do
  tag quote
  let s ← takeWhile (· != c)
  tag quote
  pure (String.ofList s)

/-- A text between single or double quotes. -/
def stringLiteral : Parser String := orElse (quotedBy "'" '\'') (quotedBy "\"" '"')

/-! ## Node tests and axes -/

/-- The first of the given words that stands at the front of the text. -/
def oneOf {α : Type} : List (String × α) → Parser α
  | [] => fail
  | (word, a) :: rest => orElse (do tag word; pure a) (oneOf rest)

/-- A test by node type, with its brackets. -/
def nodeTypeTest : Parser NodeTest :=
  orElse
    (do
      tag "processing-instruction"
      token (tag "(")
      let target ← stringLiteral
      token (tag ")")
      pure (.target target))
    (do
      let t ← oneOf [("text", NodeType.text), ("node", .node), ("comment", .comment),
        ("processing-instruction", .instruction)]
      token (tag "(")
      tag ")"
      pure (.type t))

/-- A node test. -/
def nodeTest : Parser NodeTest :=
  orElse (do tag "*"; pure (.name (.bare "*"))) <|
  orElse nodeTypeTest <|
  orElse (do let q ← nameText; tag ":*"; pure (.name ⟨some q, "*"⟩))
    (do let q ← qualifiedName; pure (.name q))

/-- The axes in the order in which their names are tried: a name comes before its prefixes. -/
def axisNames : List (String × Axis) :=
  [.child, .descendantOrSelf, .descendant, .attribute, .namespace, .parent, .ancestorOrSelf,
    .ancestor, .self, .followingSibling, .precedingSibling, .following, .preceding].map
      fun a : Axis => (a.text, a)

/-- An axis with its double colon. -/
def axis : Parser Axis := do
  let a ← oneOf axisNames
  token (tag "::")
  pure a

/-! ## Paths -/

/-- A predicate in its brackets. -/
def predicate (nested : Parser Expr) : Parser Expr := do
  token (tag "[")
  let e ← nested
  token (tag "]")
  pure e

/-- The axis and node test of a step. -/
def stepHead : Parser (Axis × NodeTest) :=
  orElse (do tag ".."; pure (.parent, .type .node)) <|
  orElse (do tag "."; pure (.self, .type .node)) <|
  orElse (do tag "@"; let t ← nodeTest; pure (.attribute, t))
    (do
      let a ← optional axis
      let t ← nodeTest
      pure (a.getD .child, t))

/-- A step with its predicates. -/
def step (nested : Parser Expr) : Parser Step := do
  let (a, t) ← token stepHead
  let ps ← many (predicate nested)
  pure (.mk a t ps)

/-- A slash or double slash and the step after it; a double slash stands for a step of its own. -/
def furtherStep (nested : Parser Expr) : Parser (List Step) := do
  let double ← orElse (do tag "//"; pure true) (do tag "/"; pure false)
  let s ← step nested
  pure (if double then [.descendants, s] else [s])

/-- All further steps of a path. -/
def furtherSteps (nested : Parser Expr) : Parser (List Step) := do
  let steps ← many (furtherStep nested)
  pure steps.flatten

/-- A path that starts at the root or at the context node. A slash with no step after it is the root
itself. -/
def locationPath (nested : Parser Expr) : Parser (Start × List Step) := do
  if (← optional (tag "//")).isSome then
    let first ← step nested
    let more ← furtherSteps nested
    pure (.root, .descendants :: first :: more)
  else if (← optional (tag "/")).isSome then
    match ← optional (step nested) with
    | none => pure (.root, [])
    | some first =>
      let more ← furtherSteps nested
      pure (.root, first :: more)
  else
    let first ← step nested
    let more ← furtherSteps nested
    pure (.here, first :: more)

/-! ## Primary expressions -/

/-- A reference to a variable. -/
def variableReference : Parser Expr := do
  tag "$"
  let q ← qualifiedName
  pure (.variable q)

/-- Names with brackets that are node tests and no calls. -/
def nodeTypeNames : List String := ["text", "node", "comment", "processing-instruction"]

/-- A function call. -/
def functionCall (nested : Parser Expr) : Parser Expr := fun input => do
  let (f, rest) ← qualifiedName input
  let (_, rest) ← peek (token (tag "(")) rest
  if f.qualifier.isNone && nodeTypeNames.contains f.name then .error input
  else
    (do
      blanks
      tag "("
      let args ← separated (tag ",") nested
      token (tag ")")
      pure (.call f args) : Parser Expr) rest

/-- An expression in brackets. -/
def bracketed (nested : Parser Expr) : Parser Expr := do
  tag "("
  let e ← nested
  tag ")"
  pure e

/-- A variable, literal, call or bracketed expression. -/
def primary (nested : Parser Expr) : Parser Expr :=
  token <|
    orElse variableReference <|
    orElse (do let x ← numberLiteral; pure (.number x)) <|
    orElse (do let s ← stringLiteral; pure (.literal s)) <|
    orElse (functionCall nested) (bracketed nested)

/-- A primary expression with its predicates. -/
def filtered (nested : Parser Expr) : Parser Expr := do
  let base ← primary nested
  let ps ← many (predicate nested)
  pure (if ps.isEmpty then base else .filter base ps)

/-- A primary expression or location path, with the steps that follow it. Primary expressions go
first, so that a call is not read as a step. -/
def pathExpr (nested : Parser Expr) : Parser Expr := do
  let first ← orElse (filtered nested)
    (do let (start, steps) ← locationPath nested; pure (.path start steps))
  let more ← furtherSteps nested
  pure <|
    if more.isEmpty then first
    else match first with
      | .path start steps => .path start (steps ++ more)
      | e => .path (.value e) more

/-! ## Operators -/

/-- Operands joined by operators of one precedence, grouped to the left. -/
def leftAssoc (op : Parser BinaryOp) (operand : Parser Expr) : Parser Expr := do
  let first ← operand
  let rest ← many (do
    let o ← token op
    let e ← operand
    pure (o, e))
  pure (rest.foldl (fun left (o, right) => .binary o left right) first)

/-- The union operator. -/
def unionOp : Parser BinaryOp := do tag "|"; pure .union

/-- The operators of products. -/
def productOp : Parser BinaryOp :=
  orElse (do tag "*"; pure .multiply) <|
  orElse (do keyword "div"; pure .divide) (do keyword "mod"; pure .modulo)

/-- The operators of sums. -/
def sumOp : Parser BinaryOp := orElse (do tag "+"; pure .add) (do tag "-"; pure .subtract)

/-- The operators of order. -/
def orderOp : Parser BinaryOp :=
  orElse (do tag "<="; pure .lessEqual) <|
  orElse (do tag ">="; pure .greaterEqual) <|
  orElse (do tag "<"; pure .less) (do tag ">"; pure .greater)

/-- The operators of equality. -/
def equalityOp : Parser BinaryOp :=
  orElse (do tag "="; pure .equal) (do tag "!="; pure .notEqual)

/-- Conjunction. -/
def andOp : Parser BinaryOp := do keyword "and"; pure .and

/-- Disjunction. -/
def orOp : Parser BinaryOp := do keyword "or"; pure .or

/-- Unions of paths. -/
def unionExpr (nested : Parser Expr) : Parser Expr := leftAssoc unionOp (pathExpr nested)

/-- Any number of minus signs before a union. -/
def unaryExpr (nested : Parser Expr) : Parser Expr := do
  let signs ← many (token (tag "-"))
  let e ← unionExpr nested
  pure (signs.foldl (fun e _ => .negate e) e)

/-- Products. -/
def productExpr (nested : Parser Expr) : Parser Expr := leftAssoc productOp (unaryExpr nested)

/-- Sums. -/
def sumExpr (nested : Parser Expr) : Parser Expr := leftAssoc sumOp (productExpr nested)

/-- Comparisons by order. -/
def orderExpr (nested : Parser Expr) : Parser Expr := leftAssoc orderOp (sumExpr nested)

/-- Comparisons by equality. -/
def equalityExpr (nested : Parser Expr) : Parser Expr := leftAssoc equalityOp (orderExpr nested)

/-- Conjunctions. -/
def andExpr (nested : Parser Expr) : Parser Expr := leftAssoc andOp (equalityExpr nested)

/-- Disjunctions. -/
def orExpr (nested : Parser Expr) : Parser Expr := leftAssoc orOp (andExpr nested)

/-- An expression whose brackets nest at most `depth` deep. -/
def expression : Nat → Parser Expr
  | 0 => fail
  | depth + 1 => token (orExpr (expression depth))

/-- The number of bytes of a text. -/
def byteCount (cs : List Char) : Nat := cs.foldr (fun c n => c.utf8Size + n) 0

/-- **The expression that a text is**, blanks after it ignored. -/
def parse (s : String) : Except SyntaxError Expr :=
  let source := Text.trimEnd s.toList
  let failAt (fault : SyntaxFault) (rest : List Char) : SyntaxError :=
    ⟨String.ofList source, fault, byteCount source - byteCount rest⟩
  match expression (source.length + 1) source with
  | .ok (e, []) => .ok e
  | .ok (_, rest@(c :: _)) => .error (failAt (.unexpected c) rest)
  | .error rest => .error (failAt .noExpression rest)

end PathQuery.Grammar
