import Mathlib.Logic.Function.Basic
import PathQuery.Error
import PathQuery.Pointer.Basic
import PathQuery.Proofs.WellFormed

/-!
# Trees of variable scopes

Variable scopes as they are meant: a scope binds names to values, most scopes stand inside another,
and a name that a scope does not declare is looked for in the scopes around it.

* names: `Scope`, `ScopeTree`, `ScopeTree.Nearest`; `bind`, `nest`; `ScopeCall`, `ScopeTree.Step`.
* `Nearest.unique`: a name stands for the variable of one scope. **`Step.getElem?_of_not_aims`**:
  a call leaves every scope alone but the one that it is aimed at.
-/

namespace PathQuery

/-- The variables of one context, and the place of the scope around it. -/
structure Scope where
  outer : Option Nat
  bindings : String → Option Value

/-- Scopes, each named by its place. -/
abbrev ScopeTree : Type := List Scope

/-- A name that can be written after a dollar sign. -/
abbrev VariableName : Type := { q : QName // q.IsWritten }

/-- What is asked for in one context. Variables are declared by any text, and read, set and removed
by expressions. -/
inductive ScopeRequest where
  /-- Derives a context at a node of some graph. -/
  | derive (p : Pointer)
  | declare (name : String) (v : Value)
  | undeclare (name : String)
  | set (n : VariableName) (v : Value)
  | remove (n : VariableName)
  | read (n : VariableName)

/-- The variable that an expression of the request stands for. -/
def ScopeRequest.variable? : ScopeRequest → Option VariableName
  | .set n _ | .remove n | .read n => some n
  | _ => none

/-- A request in the context at some place. -/
structure ScopeCall where
  place : Nat
  request : ScopeRequest

namespace ScopeTree

variable {t t' : ScopeTree} {name : String} {i j k : Nat}

/-- Scope `j` is the first to declare the name on the way from scope `i` outwards. -/
inductive Nearest (t : ScopeTree) (name : String) : Nat → Nat → Prop
  | own {i : Nat} {scope : Scope} (hscope : t[i]? = some scope)
    (hname : scope.bindings name ≠ none) : Nearest t name i i
  | outer {i j k : Nat} {scope : Scope} (hscope : t[i]? = some scope)
    (hname : scope.bindings name = none) (houter : scope.outer = some k) (h : Nearest t name k j) :
    Nearest t name i j

/-- What a scope does not declare is looked for in the scope around it. -/
theorem nearest_iff_of_unbound {scope : Scope} (hscope : t[i]? = some scope)
    (hname : scope.bindings name = none) :
    t.Nearest name i j ↔ ∃ k, scope.outer = some k ∧ t.Nearest name k j := by
  constructor
  · intro h
    cases h with
    | own hscope' hname' =>
      obtain rfl := Option.some.inj (hscope.symm.trans hscope')
      exact absurd hname hname'
    | outer hscope' _ houter hk =>
      obtain rfl := Option.some.inj (hscope.symm.trans hscope')
      exact ⟨_, houter, hk⟩
  · rintro ⟨k, houter, hk⟩
    exact .outer hscope hname houter hk

theorem Nearest.unique (h : t.Nearest name i j) (h' : t.Nearest name i k) : j = k := by
  induction h with
  | own hscope hname =>
    cases h' with
    | own => rfl
    | outer hscope' hname' _ _ =>
      obtain rfl := Option.some.inj (hscope.symm.trans hscope')
      exact absurd hname' hname
  | outer hscope hname houter _ ih =>
    obtain ⟨_, houter', hk⟩ := (nearest_iff_of_unbound hscope hname).1 h'
    obtain rfl := Option.some.inj (houter.symm.trans houter')
    exact ih hk

/-- The value that a scope itself binds a name to. -/
def value? (t : ScopeTree) (i : Nat) (name : String) : Option Value :=
  t[i]?.bind fun scope => scope.bindings name

theorem nearest_of_value? {v : Value} (h : t.value? i name = some v) : t.Nearest name i i := by
  obtain ⟨scope, hscope, hv⟩ := Option.bind_eq_some_iff.1 h
  exact .own hscope fun hnone => nomatch hnone.symm.trans hv

/-- The tree with a name bound in one scope, or with no value bound to it. -/
def bind (t : ScopeTree) (i : Nat) (name : String) (x : Option Value) : ScopeTree :=
  t.modify i fun scope => { scope with bindings := Function.update scope.bindings name x }

/-- The tree with an empty scope inside another. -/
def nest (t : ScopeTree) (i : Nat) : ScopeTree :=
  t ++ [{ outer := some i, bindings := fun _ => none }]

/-! ## Calls -/

/-- What a call answers and the tree that it leaves. Reading gives something that `reads` allows for
the name and its value; all else is determined. -/
inductive Step (reads : QName → Value → Except PathError (Option Value) → Prop) (t : ScopeTree) :
    ScopeCall → Except PathError (Option Value) → ScopeTree → Prop
  /-- There is no such context. -/
  | absent {call : ScopeCall} (h : t.length ≤ call.place) : Step reads t call (.ok none) t
  | derive {i : Nat} {p : Pointer} (h : i < t.length) :
    Step reads t ⟨i, .derive p⟩ (.ok none) (t.nest i)
  /-- No context can be derived at the node. -/
  | refused {i : Nat} {p : Pointer} {e : PathError} (h : i < t.length) :
    Step reads t ⟨i, .derive p⟩ (.error e) t
  | declare {i : Nat} {name : String} {v : Value} (h : i < t.length) :
    Step reads t ⟨i, .declare name v⟩ (.ok none) (t.bind i name (some v))
  | undeclare {i : Nat} {name : String} (h : i < t.length) :
    Step reads t ⟨i, .undeclare name⟩ (.ok none) (t.bind i name none)
  | set {i j : Nat} {n : VariableName} {v : Value} (h : t.Nearest n.1.text i j) :
    Step reads t ⟨i, .set n v⟩ (.ok none) (t.bind j n.1.text (some v))
  | remove {i j : Nat} {n : VariableName} (h : t.Nearest n.1.text i j) :
    Step reads t ⟨i, .remove n⟩ (.ok none) (t.bind j n.1.text none)
  | read {i j : Nat} {n : VariableName} {v : Value} {x : Except PathError (Option Value)}
    (h : t.Nearest n.1.text i j) (hvalue : t.value? j n.1.text = some v) (hread : reads n v x) :
    Step reads t ⟨i, .read n⟩ x t
  | undeclared {i : Nat} {request : ScopeRequest} {n : VariableName} (hi : i < t.length)
    (hn : request.variable? = some n) (h : ∀ j, ¬ t.Nearest n.1.text i j) :
    Step reads t ⟨i, request⟩ (.error (.undeclared n.1.text)) t

section Steps

variable {reads : QName → Value → Except PathError (Option Value) → Prop} {call : ScopeCall}
variable {x : Except PathError (Option Value)} {t'' : ScopeTree}

theorem Step.of_eq (ht : t'' = t') (h : Step reads t call x t') : Step reads t call x t'' := ht ▸ h

/-- Reading looks at the value in the nearest scope. -/
theorem Step.reads_of_nearest {n : VariableName} {v : Value} (h : Step reads t ⟨i, .read n⟩ x t')
    (hj : t.Nearest n.1.text i j) (hv : t.value? j n.1.text = some v) : reads n v x := by
  cases h with
  | absent habsent =>
    have hi : t[i]? = none := List.getElem?_eq_none_iff.2 habsent
    cases hj with
    | own hscope _ => exact nomatch hi.symm.trans hscope
    | outer hscope _ _ _ => exact nomatch hi.symm.trans hscope
  | read hj' hv' hreads =>
    obtain rfl := hj.unique hj'
    obtain rfl := Option.some.inj (hv.symm.trans hv')
    exact hreads
  | undeclared _ hn hno =>
    obtain rfl := Option.some.inj hn
    exact absurd hj (hno j)

/-- The call is aimed at a scope: declarations at the scope of their own context, expressions at the
nearest one that declares their variable. -/
def Aims (t : ScopeTree) (call : ScopeCall) (j : Nat) : Prop :=
  match call.request with
  | .declare _ _ | .undeclare _ => j = call.place
  | .set n _ | .remove n => t.Nearest n.1.text call.place j
  | .derive _ | .read _ => False

theorem getElem?_bind_of_ne (h : j ≠ i) (t : ScopeTree) (name : String) (x : Option Value) :
    (t.bind i name x)[j]? = t[j]? := by
  exact List.getElem?_modify_ne _ _ h.symm

/-- **A call leaves all scopes alone but the one that it is aimed at.** -/
theorem Step.getElem?_of_not_aims (h : Step reads t call x t') (hj : j < t.length)
    (haims : ¬ t.Aims call j) : t'[j]? = t[j]? := by
  cases h with
  | absent | refused | read | undeclared => rfl
  | derive => exact List.getElem?_append_left hj
  | declare | undeclare => exact getElem?_bind_of_ne haims _ _ _
  | set h | remove h =>
    refine getElem?_bind_of_ne ?_ _ _ _
    rintro rfl
    exact haims h

end Steps

end ScopeTree

end PathQuery
