/-!
# Blanks

Two classes of white space: the whole Unicode property *White_Space*, by which texts are trimmed
and cut into words, and the four blanks that may stand between the tokens of an expression.

* names: `isBlank`, `isTokenBlank`, `trimStart`, `trimEnd`, `trim`, `words`.
-/

namespace PathQuery.Text

/-- The property *White_Space*. -/
def isBlank (c : Char) : Bool :=
  let n := c.toNat
  (9 ≤ n && n ≤ 13) || n == 0x20 || n == 0x85 || n == 0xA0 || n == 0x1680 ||
    (0x2000 ≤ n && n ≤ 0x200A) || n == 0x2028 || n == 0x2029 || n == 0x202F || n == 0x205F ||
    n == 0x3000

/-- Space, tab, carriage return and line feed. -/
def isTokenBlank (c : Char) : Bool := c == ' ' || c == '\t' || c == '\r' || c == '\n'

/-- The text without the blanks before it. -/
def trimStart (cs : List Char) : List Char := cs.dropWhile isBlank

/-- The text without the blanks after it. -/
def trimEnd (cs : List Char) : List Char := (cs.reverse.dropWhile isBlank).reverse

/-- The text without the blanks around it. -/
def trim (cs : List Char) : List Char := trimEnd (trimStart cs)

/-- `word` followed by the text up to the next blank, then the words after that blank. -/
def wordsFrom (word : List Char) : List Char → List (List Char)
  | [] => if word.isEmpty then [] else [word]
  | c :: cs =>
    if isBlank c then
      if word.isEmpty then wordsFrom [] cs else word :: wordsFrom [] cs
    else wordsFrom (word ++ [c]) cs

/-- The maximal runs without a blank, in order. -/
def words (cs : List Char) : List (List Char) := wordsFrom [] cs

end PathQuery.Text
