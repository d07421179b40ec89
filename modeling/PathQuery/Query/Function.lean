import PathQuery.Action
import PathQuery.Query.Answer
import PathQuery.Table

/-!
# Functions

Functions that a caller adds to the language, found by qualifier, name and number of arguments.

* names: `Focus`, `Function`, `Signature`, `FunctionLibrary`; `register`, `extend`, `find?`, `size`.
* A function for exactly the given number of arguments wins over one for any number.
-/

namespace PathQuery

/-- The node an expression is evaluated at, its place in the current list of nodes, and when. -/
structure Focus where
  node : Pointer
  /-- The place of the node, counted from one. -/
  position : Nat := 1
  size : Nat := 1
  /-- When the evaluation takes place. -/
  occasion : Occasion := {}

/-- The focus of a part of an expression. -/
def Focus.part (f : Focus) (k : Nat) : Focus := { f with occasion := f.occasion.part k }

/-- A function of the language. -/
abbrev Function : Type := Focus → List Answer → Action Answer

/-- What a function is found by; no arity stands for any number of arguments. -/
structure Signature where
  name : QName
  arity : Option Nat
deriving DecidableEq

/-- Functions, one for each signature, the latest last. -/
structure FunctionLibrary where
  entries : List (Signature × Function) := []

namespace FunctionLibrary

/-- The library with a function that replaces any of the same signature. -/
def register (l : FunctionLibrary) (key : Signature) (f : Function) : FunctionLibrary :=
  ⟨l.entries.filter (fun e => e.1 != key) ++ [(key, f)]⟩

/-- The library with all functions of another. -/
def extend (l other : FunctionLibrary) : FunctionLibrary :=
  other.entries.foldl (fun l (key, f) => l.register key f) l

/-- The function of a signature. -/
def lookup (l : FunctionLibrary) (key : Signature) : Option Function := l.entries.lookup key

/-- The function for a call with so many arguments. -/
def find? (l : FunctionLibrary) (name : QName) (args : Nat) : Option Function :=
  l.lookup ⟨name, some args⟩ <|> l.lookup ⟨name, none⟩

/-- The number of signatures. -/
def size (l : FunctionLibrary) : Nat := l.entries.length

/-- The names of the functions, sorted. -/
def names (l : FunctionLibrary) : List String :=
  (l.entries.map fun e => e.1.name).eraseDups.map QName.text |>.mergeSort

/-- A library as it is shown in diagnostics. -/
def shown (l : FunctionLibrary) : String :=
  shownFields "FunctionLibrary" [("functions", shownList (l.names.map Text.quoted))]

/-! ## What is found -/

theorem lookup_filter_ne {key key' : Signature} (h : key' ≠ key)
    (l : List (Signature × Function)) :
    (l.filter fun e => e.1 != key).lookup key' = l.lookup key' := by
  induction l with
  | nil => rfl
  | cons e l ih =>
    obtain ⟨k, f⟩ := e
    by_cases hk : k = key
    · subst hk
      have hb : (key' == k) = false := beq_eq_false_iff_ne.2 h
      simp [List.lookup_cons, hb, ih]
    · simp [List.lookup_cons, hk, ih]

theorem lookup_filter_self (key : Signature) (l : List (Signature × Function)) :
    (l.filter fun e => e.1 != key).lookup key = none := by
  rw [List.lookup_eq_none_iff]
  intro e he
  have := (List.mem_filter.1 he).2
  exact bne_iff_ne.2 fun h : key = e.1 => by simp [h] at this

theorem lookup_append (key : Signature) (l l' : List (Signature × Function)) :
    (l ++ l').lookup key = (l.lookup key <|> l'.lookup key) := by
  induction l with
  | nil => simp
  | cons e l ih =>
    obtain ⟨k, f⟩ := e
    cases h : key == k <;> simp [List.lookup_cons, h, ih]

@[simp] theorem lookup_register_self (l : FunctionLibrary) (key : Signature) (f : Function) :
    (l.register key f).lookup key = some f := by
  simp [lookup, register, lookup_append, lookup_filter_self]

theorem lookup_register_of_ne {key key' : Signature} (h : key' ≠ key) (l : FunctionLibrary)
    (f : Function) : (l.register key f).lookup key' = l.lookup key' := by
  have hb : (key' == key) = false := beq_eq_false_iff_ne.2 h
  simp [lookup, register, lookup_append, lookup_filter_ne h, List.lookup_cons, hb]

end FunctionLibrary

end PathQuery
