import PathQuery.Text.Blank

/-!
# Parsers

A parser reads a value from the front of a text and gives the text after it, or says at which rest
of the text it failed.

* names: `Parser`, `fail`, `tag`, `takeWhile`, `takeWhile1`, `orElse`, `optional`, `peek`,
  `notFollowed`, `many`, `separated`, `blanks`, `token`.
* An ordered choice fails where its last alternative fails.
-/

namespace PathQuery

/-- A parser of `α`. An error carries the rest of the text at which reading failed. -/
abbrev Parser (α : Type) := StateT (List Char) (Except (List Char)) α

namespace Parser

variable {α β : Type}

/-- Fails at the front of the text. -/
def fail : Parser α := fun input => .error input

/-- Reads a fixed text. -/
def tag (s : String) : Parser Unit := fun input =>
  if s.toList.isPrefixOf input then .ok ((), input.drop s.length) else .error input

/-- The longest run of characters of a class. -/
def takeWhile (p : Char → Bool) : Parser (List Char) := fun input =>
  .ok (input.takeWhile p, input.dropWhile p)

/-- The longest run of characters of a class, one at least. -/
def takeWhile1 (p : Char → Bool) : Parser (List Char) := fun input =>
  if (input.takeWhile p).isEmpty then .error input
  else .ok (input.takeWhile p, input.dropWhile p)

/-- `q` where `p` fails. -/
def orElse (p q : Parser α) : Parser α := fun input =>
  match p input with
  | .ok r => .ok r
  | .error _ => q input

/-- What `p` reads, or nothing. -/
def optional (p : Parser α) : Parser (Option α) := fun input =>
  match p input with
  | .ok (a, rest) => .ok (some a, rest)
  | .error _ => .ok (none, input)

/-- What `p` reads, without moving on. -/
def peek (p : Parser α) : Parser α := fun input =>
  match p input with
  | .ok (a, _) => .ok (a, input)
  | .error at_ => .error at_

/-- Succeeds, without moving on, where `p` fails. -/
def notFollowed (p : Parser α) : Parser Unit := fun input =>
  match p input with
  | .ok _ => .error input
  | .error _ => .ok ((), input)

/-- Reads with `p` until it fails. A success that moves on by nothing is a failure. -/
def many (p : Parser α) (input : List Char) : Except (List Char) (List α × List Char) :=
  match p input with
  | .error _ => .ok ([], input)
  | .ok (a, rest) =>
    if rest.length < input.length then do
      let (as, rest) ← many p rest
      pure (a :: as, rest)
    else .error input
termination_by input.length

/-- Items with a separator between them, possibly none. -/
def separated (separator : Parser Unit) (item : Parser α) : Parser (List α) := do
  match ← optional item with
  | none => pure []
  | some a => do
    let as ← many (do separator; item)
    pure (a :: as)

/-- Skips the blanks that may stand between tokens. -/
def blanks : Parser Unit := fun input => .ok ((), input.dropWhile Text.isTokenBlank)

/-- `p` with blanks around it. -/
def token (p : Parser α) : Parser α := do
  blanks
  let a ← p
  blanks
  pure a

end Parser

end PathQuery
