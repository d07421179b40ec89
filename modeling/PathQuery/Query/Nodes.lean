import PathQuery.Error

/-!
# Node sequences

A sequence of pointers that may break off: the pointers that can be pulled from it, and the failure
that the pull after the last of them meets. A failure at the end of a sequence harms nobody who
stops before it.

* names: `Nodes`, `Nodes.append`, `Nodes.flatMap`, `Nodes.take`, `Nodes.first`, `Nodes.all`.
* **`append_assoc`**, `fail_append`: nothing is pulled after a failure.
-/

namespace PathQuery

/-- Pointers, and the failure that ends them if one does. -/
structure Nodes where
  items : List Pointer := []
  failure : Option PathError := none
deriving DecidableEq, Inhabited

namespace Nodes

/-- The sequence of a list. -/
def ofList (items : List Pointer) : Nodes := { items }

/-- The sequence that fails at once. -/
def fail (e : PathError) : Nodes := { failure := some e }

/-- One sequence after another. -/
def append (a b : Nodes) : Nodes :=
  match a.failure with
  | some _ => a
  | none => { b with items := a.items ++ b.items }

instance : Append Nodes := ⟨append⟩

/-- What `f` finds from each pointer in turn. -/
def flatMap (a : Nodes) (f : Pointer → Nodes) : Nodes :=
  a.items.foldr (fun p rest => f p ++ rest) { failure := a.failure }

/-- The pointers that pass a test. -/
def filter (a : Nodes) (test : Pointer → Bool) : Nodes := { a with items := a.items.filter test }

/-- The first `n` pointers, with the failure only if a pull meets it. -/
def take (a : Nodes) (n : Nat) : Nodes :=
  if n ≤ a.items.length then ofList (a.items.take n) else a

/-- The first pointer, if there is one. -/
def first (a : Nodes) : Except PathError (Option Pointer) :=
  match a.items, a.failure with
  | p :: _, _ => .ok (some p)
  | [], some e => .error e
  | [], none => .ok none

/-- All pointers, or the failure. -/
def all (a : Nodes) : Except PathError (List Pointer) :=
  match a.failure with
  | some e => .error e
  | none => .ok a.items

/-! ## Laws -/

@[simp] theorem failed_append (as : List Pointer) (e : PathError) (b : Nodes) :
    ⟨as, some e⟩ ++ b = (⟨as, some e⟩ : Nodes) := rfl

@[simp] theorem unfailed_append (as bs : List Pointer) (f : Option PathError) :
    ⟨as, none⟩ ++ ⟨bs, f⟩ = (⟨as ++ bs, f⟩ : Nodes) := rfl

@[simp] theorem fail_append (e : PathError) (a : Nodes) : fail e ++ a = fail e := rfl

@[simp] theorem nil_append (a : Nodes) : ({} : Nodes) ++ a = a := rfl

@[simp] theorem append_nil (a : Nodes) : a ++ ({} : Nodes) = a := by
  obtain ⟨as, _ | e⟩ := a <;> simp

theorem append_assoc (a b c : Nodes) : a ++ b ++ c = a ++ (b ++ c) := by
  obtain ⟨as, _ | e⟩ := a <;> obtain ⟨bs, _ | f⟩ := b <;> obtain ⟨cs, g⟩ := c <;> simp

@[simp] theorem items_ofList (as : List Pointer) : (ofList as).items = as := rfl

@[simp] theorem failure_ofList (as : List Pointer) : (ofList as).failure = none := rfl

theorem ofList_append (as : List Pointer) (b : Nodes) :
    ofList as ++ b = ⟨as ++ b.items, b.failure⟩ := rfl

@[simp] theorem items_ofList_append (as : List Pointer) (b : Nodes) :
    (ofList as ++ b).items = as ++ b.items := rfl

@[simp] theorem failure_ofList_append (as : List Pointer) (b : Nodes) :
    (ofList as ++ b).failure = b.failure := rfl

@[simp] theorem flatMap_nil (f : Pointer → Nodes) : ({} : Nodes).flatMap f = {} := rfl

@[simp] theorem flatMap_fail (e : PathError) (f : Pointer → Nodes) :
    (fail e).flatMap f = fail e := rfl

@[simp] theorem flatMap_cons (p : Pointer) (a : Nodes) (f : Pointer → Nodes) :
    (ofList [p] ++ a).flatMap f = f p ++ a.flatMap f := rfl

end Nodes

end PathQuery
