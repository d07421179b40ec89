import PathQuery.Proofs.Addresses

/-!
# The ends of links, failures included

What the value at the end of a link is under the standard registry, and how the search for it fails:
at a value that no factory covers, or in a chain of too many cells.

* names: `Store.endOf`, `Node.shown`.
* **`value_eq_shown`**: the value of a pointer is what its node shows, and only the path in the
  message of a failure comes from the pointer.
-/

namespace PathQuery

namespace Store

/-- The end of a chain of fewer than `n` cells; none if it is longer. -/
def endOf (s : Store) : Nat → Value → Except PathError (Option Value)
  | _, .foreign f => .error (.unresolvable (s.kind (.foreign f)))
  | 0, _ => .ok none
  | n + 1, .cell c => s.endOf n (s.cells.get c)
  | _ + 1, v => .ok (some v)

variable {s : Store} {v w : Value} {n : Nat}

theorem endOf_zero (hf : ∀ f, v ≠ .foreign f) : s.endOf 0 v = .ok none := by
  cases v <;> first | rfl | exact absurd rfl (hf _)

theorem endOf_of_ne_cell (n : Nat) (hc : ∀ c, v ≠ .cell c) (hf : ∀ f, v ≠ .foreign f) :
    s.endOf (n + 1) v = .ok (some v) := by
  cases v <;> first | rfl | exact absurd rfl (hc _) | exact absurd rfl (hf _)

theorem SameGraph.endOf {t : Store} (ht : s.SameGraph t) (n : Nat) (v : Value) :
    t.endOf n v = s.endOf n v := by
  obtain ⟨now, roots, rfl⟩ := ht
  induction n generalizing v with
  | zero => cases v <;> rfl
  | succ n ih => cases v <;> first | rfl | exact ih _

/-- The end of a chain can be shown, and the chain leads to it. -/
theorem endOf_eq_some (h : s.endOf n v = .ok (some w)) :
    (∀ c, w ≠ .cell c) ∧ (∀ f, w ≠ .foreign f) ∧ s.Reaches v w := by
  induction n generalizing v with
  | zero => cases v <;> simp [endOf] at h
  | succ n ih =>
    by_cases hc : ∃ c, v = .cell c
    · obtain ⟨c, rfl⟩ := hc
      obtain ⟨hcell, hforeign, hreach⟩ := ih h
      exact ⟨hcell, hforeign, Reaches.trans ⟨[.inside], rfl⟩ hreach⟩
    · by_cases hf : ∃ f, v = .foreign f
      · obtain ⟨f, rfl⟩ := hf
        cases h
      · have hc' := fun c h => hc ⟨c, h⟩
        have hf' := fun f h => hf ⟨f, h⟩
        rw [endOf_of_ne_cell n hc' hf', Except.ok.injEq, Option.some.injEq] at h
        exact h ▸ ⟨hc', hf', .refl s v⟩

end Store

/-- What a node shows: the end of its link, or itself. -/
def Node.shown (s : Store) (node : Node) : Except PathError (Option Value) :=
  if node.isLink then s.endOf (Store.maxIndirections - 1) (node.immediate s)
  else .ok (some (node.immediate s))

namespace Pointer

variable {s : Store}

/-- A value's own node leads to the end of the value. -/
theorem valuePointerUpTo_node_eq {q : Pointer} {v : Value} (name : Option QName) (n : Nat)
    (hq : q.node = v.node name) (hv : ∀ f, v ≠ .foreign f) :
    (q.valuePointerUpTo s .standard n).map (Option.map (·.immediate s)) = s.endOf n v := by
  induction n generalizing v q with
  | zero => cases v <;> first | rfl | exact absurd rfl (hv _)
  | succ n ih =>
    by_cases hc : ∃ c, v = .cell c
    · obtain ⟨c, rfl⟩ := hc
      have himm : q.immediate s = s.cells.get c := by rw [immediate, hq]; rfl
      have hlink : q.node.isLink = true := by rw [hq]; rfl
      have hname : q.node.name? = name := by rw [hq]; rfl
      rw [valuePointerUpTo, next?_of_isLink hlink, himm, hname, Store.endOf]
      by_cases hf : ∃ f, s.cells.get c = .foreign f
      · obtain ⟨f, hf⟩ := hf
        rw [hf, Registry.create_standard_foreign]
        cases n <;> rfl
      · have hf' : ∀ f, s.cells.get c ≠ .foreign f := fun f h => hf ⟨f, h⟩
        rw [Registry.create_standard s name _ _ hf']
        exact ih rfl hf'
    · have hc' : ∀ c, v ≠ .cell c := fun c h => hc ⟨c, h⟩
      have hlink : q.node.isLink = false := by
        rw [hq]
        cases v <;> first | rfl | exact absurd rfl (hc' _)
      rw [valuePointerUpTo, next?_of_not_isLink hlink, Store.endOf_of_ne_cell n hc' hv]
      show Except.ok (some (q.immediate s)) = _
      rw [immediate, hq, immediate_node v name hc']

/-- **The value of a pointer is what its node shows**; the search fails in a chain of too many
cells. -/
theorem value_eq_shown (p : Pointer) :
    p.value s .standard = (do
      match ← p.node.shown s with
      | some v => pure v
      | none => throw (.tooIndirect (p.path s))) := by
  cases hlink : p.node.isLink with
  | false =>
    rw [value, valuePointer_eq_self hlink, Node.shown, hlink]
    rfl
  | true =>
    have hvalue (x : Except PathError (Option Pointer))
        (hx : p.valuePointerUpTo s .standard Store.maxIndirections = x) :
        p.value s .standard = (do
          match ← x.map (Option.map (·.immediate s)) with
          | some v => pure v
          | none => throw (.tooIndirect (p.path s))) := by
      rw [value, valuePointer, hx]
      rcases x with e | _ | q <;> rfl
    rw [hvalue _ rfl, show Store.maxIndirections = 1023 + 1 from rfl, valuePointerUpTo,
      next?_of_isLink hlink, Node.shown, hlink]
    by_cases hf : ∃ f, p.immediate s = .foreign f
    · obtain ⟨f, hf⟩ := hf
      rw [hf, Registry.create_standard_foreign, show p.node.immediate s = _ from hf]
      rfl
    · have hf' : ∀ f, p.immediate s ≠ .foreign f := fun f h => hf ⟨f, h⟩
      rw [Registry.create_standard s _ _ _ hf']
      have hend := valuePointerUpTo_node_eq (s := s)
        (q := ⟨⟨(p.immediate s).node p.node.name?, s.now, none⟩, p.chain, p.locale⟩)
        p.node.name? 1023 rfl hf'
      exact congrArg (· >>= _) hend

end Pointer

end PathQuery
