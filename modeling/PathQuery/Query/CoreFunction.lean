import PathQuery.Pointer.Navigate
import PathQuery.Query.Function
import PathQuery.Text.Blank
import PathQuery.Text.Search

/-!
# Core functions

The functions every expression can call without a qualifier.

* names: `CoreFunction`, `CoreFunction.ofName?`, `CoreFunction.apply`; `substring`, `translate`,
  `roundHalfUp`.
* Arguments are counted before any of them is converted.
-/

namespace PathQuery

/-- A function of the core library. -/
inductive CoreFunction where
  | last | position | count | localName | namespaceUri | name
  | string | concat | startsWith | endsWith | contains
  | substringBefore | substringAfter | substring | stringLength | normalizeSpace | translate
  | boolean | not | true | false | lang
  | number | sum | floor | ceiling | round
deriving DecidableEq

namespace CoreFunction

/-- The name by which a function is called. -/
def text : CoreFunction → String
  | last => "last"
  | position => "position"
  | count => "count"
  | localName => "local-name"
  | namespaceUri => "namespace-uri"
  | name => "name"
  | string => "string"
  | concat => "concat"
  | startsWith => "starts-with"
  | endsWith => "ends-with"
  | contains => "contains"
  | substringBefore => "substring-before"
  | substringAfter => "substring-after"
  | substring => "substring"
  | stringLength => "string-length"
  | normalizeSpace => "normalize-space"
  | translate => "translate"
  | boolean => "boolean"
  | not => "not"
  | true => "true"
  | false => "false"
  | lang => "lang"
  | number => "number"
  | sum => "sum"
  | floor => "floor"
  | ceiling => "ceiling"
  | round => "round"

/-- All core functions. -/
def all : List CoreFunction :=
  [last, position, count, localName, namespaceUri, name, string, concat, startsWith, endsWith,
    contains, substringBefore, substringAfter, substring, stringLength, normalizeSpace, translate,
    boolean, not, true, false, lang, number, sum, floor, ceiling, round]

/-- The core function of a name. -/
def ofName? (n : String) : Option CoreFunction := all.find? fun f => f.text == n

theorem mem_all (f : CoreFunction) : f ∈ all := by cases f <;> decide

/-! ## What the functions compute -/

/-- The characters from the rounded start on, as many as the rounded length says; a place is kept
if it lies in the interval, so no number keeps nothing. -/
def substringOf (t : List Char) (start : Float) (length : Option Float) : List Char :=
  let first := Number.floor (start + 0.5)
  let inside (place : Float) := match length with
    | some n => place < first + Number.floor (n + 0.5)
    | none => place < 1.0 / 0.0
  (t.zipIdx 1).filterMap fun (c, i) =>
    let place := Number.ofNat i
    if first ≤ place && inside place then some c else none

/-- Each character of `source` replaced by its counterpart in `target`, or dropped if it has
none. -/
def translateChars (source target t : List Char) : List Char :=
  t.filterMap fun c =>
    match source.findIdx? (· == c) with
    | some i => target[i]?
    | none => some c

/-- The nearest integer, a half upwards. -/
def roundHalfUp (x : Float) : Float :=
  if x.isNaN || x.isInf || x == 0 then x else Number.floor (x + 0.5)

/-! ## Calls -/

variable (s : Store) (r : Registry)

/-- A failure of a function. -/
def fail {α : Type} (f : CoreFunction) (fault : CallFault) : Except PathError α :=
  .error (.call (f.text ++ "()") fault)

/-- The least and the greatest number of arguments; `concat` takes any number from two on. -/
def arity : CoreFunction → Nat × Nat
  | last | position | true | false => (0, 0)
  | localName | namespaceUri | name | string | stringLength | normalizeSpace | number => (0, 1)
  | count | boolean | not | lang | sum | floor | ceiling | round => (1, 1)
  | startsWith | endsWith | contains | substringBefore | substringAfter => (2, 2)
  | substring => (2, 3)
  | translate => (3, 3)
  | concat => (2, 0)

/-- The number of arguments is right. -/
def checkArity (f : CoreFunction) (args : Nat) : Except PathError Unit :=
  let (least, most) := f.arity
  if f = concat then if args < least then f.fail (.tooFew least) else .ok ()
  else if least ≤ args && args ≤ most then .ok ()
  else f.fail (.arity least most args)

/-- The nodes of an argument that must have nodes. -/
def nodesOf (f : CoreFunction) : Answer → Except PathError (List Pointer)
  | .nodes items => .ok items
  | a => f.fail (.noNodes (a.shown s))

/-- The node that a function of names is about: the first of its argument, or the context node. -/
def subject (f : CoreFunction) (focus : Focus) (args : List Answer) :
    Except PathError (Option Pointer) :=
  match args with
  | [] => .ok (some focus.node)
  | a :: _ => (f.nodesOf s a).map List.head?

/-- The text of the argument, or of the context node. -/
def textOf (focus : Focus) (args : List Answer) : Except PathError (List Char) :=
  match args with
  | [] => do pure (s.toText (← focus.node.value s r)).toList
  | a :: _ => (a.toText s r).map String.toList

/-- An answer of characters. -/
def answerChars (cs : List Char) : Answer := .text (String.ofList cs)

/-- A number of things as an answer. -/
def answerCount (n : Nat) : Answer := .number (Number.ofNat n)

/-- A function of two texts; the second is converted first. -/
def ofTexts (f : List Char → List Char → Answer) (t needle : Answer) : Except PathError Answer := do
  let needle ← needle.toText s r
  let t ← t.toText s r
  pure (f t.toList needle.toList)

/-- A call with the right number of arguments. -/
def run (f : CoreFunction) (focus : Focus) (args : List Answer) : Except PathError Answer :=
  match f, args with
  | last, _ => .ok (answerCount focus.size)
  | position, _ => .ok (answerCount focus.position)
  | count, a :: _ => do pure (answerCount (← f.nodesOf s a).length)
  | localName, args => do
    let node ← f.subject s focus args
    pure (.text (((node.bind fun p => p.node.name?).map QName.name).getD ""))
  | name, args => do
    let node ← f.subject s focus args
    pure (.text (((node.bind fun p => p.node.name?).map QName.text).getD ""))
  | namespaceUri, args => do
    let node ← f.subject s focus args
    pure (.text ((node.bind fun p => p.ownUri? s).getD ""))
  | string, args => do pure (answerChars (← textOf s r focus args))
  | concat, args => do
    pure (.text (String.join (← args.mapM fun a => a.toText s r)))
  | startsWith, [t, needle] => ofTexts s r (fun t n => .boolean (n.isPrefixOf t)) t needle
  | endsWith, [t, needle] => ofTexts s r (fun t n => .boolean (n.isSuffixOf t)) t needle
  | contains, [t, needle] => ofTexts s r (fun t n => .boolean (Text.occursIn n t)) t needle
  | substringBefore, [t, needle] => ofTexts s r (fun t n => answerChars (Text.before n t)) t needle
  | substringAfter, [t, needle] => ofTexts s r (fun t n => answerChars (Text.after n t)) t needle
  | substring, t :: start :: length => do
    let length ← length.head?.mapM fun a => a.toNumber s r
    let start ← start.toNumber s r
    let t ← t.toText s r
    pure (answerChars (substringOf t.toList start length))
  | stringLength, args => do pure (answerCount (← textOf s r focus args).length)
  | normalizeSpace, args => do
    let words := Text.words (← textOf s r focus args)
    pure (answerChars (List.intercalate [' '] words))
  | translate, [t, source, target] => do
    let target ← target.toText s r
    let source ← source.toText s r
    let t ← t.toText s r
    pure (answerChars (translateChars source.toList target.toList t.toList))
  | boolean, a :: _ => .ok (.boolean (a.toBool s))
  | not, a :: _ => .ok (.boolean (!a.toBool s))
  | true, _ => .ok (.boolean Bool.true)
  | false, _ => .ok (.boolean Bool.false)
  | lang, a :: _ => do pure (.boolean (focus.node.locale.isLanguage (← a.toText s r)))
  | number, [] => do pure (.number (s.toNumber (← focus.node.value s r)))
  | number, a :: _ => (a.toNumber s r).map .number
  | sum, a :: _ => do
    let values ← (← f.nodesOf s a).mapM fun p => p.value s r
    pure (.number (values.foldl (fun x v => x + s.toNumber v) 0.0))
  | floor, a :: _ => do pure (.number (Number.floor (← a.toNumber s r)))
  | ceiling, a :: _ => do pure (.number (Number.ceiling (← a.toNumber s r)))
  | round, a :: _ => do pure (.number (roundHalfUp (← a.toNumber s r)))
  | f, args => f.fail (.arity f.arity.1 f.arity.2 args.length)

/-- The value of a call. -/
def apply (f : CoreFunction) (focus : Focus) (args : List Answer) : Except PathError Answer := do
  f.checkArity args.length
  f.run s r focus args

end CoreFunction

end PathQuery
