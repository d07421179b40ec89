/-!
# Syntax errors

What is wrong with a text that is no expression, and where reading it stopped.

* names: `SyntaxFault`, `SyntaxError`, `SyntaxError.reason`, `SyntaxError.place`,
  `SyntaxError.message`.
-/

namespace PathQuery

/-- What stopped the reading. -/
inductive SyntaxFault where
  /-- An expression ended, but the text goes on with this character. -/
  | unexpected (c : Char)
  /-- No expression could be read. -/
  | noExpression
deriving DecidableEq

/-- A text that is no expression. -/
structure SyntaxError where
  /-- The text without the blanks after it. -/
  source : String
  fault : SyntaxFault
  /-- The number of bytes before the place where reading stopped. -/
  position : Nat
deriving DecidableEq

namespace SyntaxError

/-- What is wrong, without the place. -/
def reason (e : SyntaxError) : String :=
  match e.fault with
  | .unexpected c => s!"Unexpected '{c}'."
  | .noExpression => "Syntax error"

/-- The characters that fill exactly the given number of bytes, if a character ends there. -/
def bytesBefore : Nat → List Char → Option (List Char)
  | 0, _ => some []
  | _ + 1, [] => none
  | n + 1, c :: cs =>
    if c.utf8Size ≤ n + 1 then (bytesBefore (n + 1 - c.utf8Size) cs).map (c :: ·) else none
termination_by _ cs => cs

/-- The place in words. -/
def place (e : SyntaxError) : String :=
  if e.position = 0 then "at the beginning of the expression"
  else if e.source.utf8ByteSize ≤ e.position then "- expression incomplete"
  else
    let read := ((bytesBefore e.position e.source.toList).map String.ofList).getD e.source
    s!"after: '{read}'"

/-- The full text of the error. -/
def message (e : SyntaxError) : String := s!"Invalid path: '{e.source}'. {e.reason} {e.place}"

end SyntaxError

end PathQuery
