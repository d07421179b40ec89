import PathQuery.Pointer.Order
import PathQuery.Proofs.ComparedItems
import PathQuery.Proofs.Integers
import PathQuery.Proofs.SortedMembers

/-!
# Pointers without an order

Pointers whose chains start from different values have no order. To start from the same value is an
equivalence, numbers included, so a list that holds two such pointers cannot be sorted without
comparing two of them: the failure is always found.

* names: `Number.unsigned`, `Value.identity`.
* **`Value.same_iff`**: values are the same by what they are. **`sortUnique_eq_error`**: a list with
  pointers into two graphs is not sorted.
-/

namespace PathQuery

open Float.Model

/-! ## Sameness is an equivalence -/

namespace Number

/-- The double without the sign of a zero, which equality ignores. -/
def unsigned : UnpackedFloat → UnpackedFloat
  | .zero _ => .zero .positive
  | x => x

/-- Doubles that are equal or not numbers at all are one double up to the sign of a zero. -/
theorem equal_iff (x y : UnpackedFloat) :
    (x.compare y == some .eq || (x.isNaN && y.isNaN)) = true ↔ unsigned x = unsigned y := by
  have hsigns (a b : UnpackedFloat.Sign) : Ord.compare a b = .eq ↔ a = b := by
    cases a <;> cases b <;> simp <;> rfl
  cases x with
  | notANumber => cases y <;> simp [UnpackedFloat.compare, UnpackedFloat.isNaN, unsigned]
  | infinity a =>
    cases y <;> cases a <;> simp [UnpackedFloat.compare, UnpackedFloat.isNaN, unsigned, hsigns]
  | zero =>
    cases y with
    | infinity b | finite b =>
      cases b <;> simp [UnpackedFloat.compare, UnpackedFloat.isNaN, unsigned]
    | _ => simp [UnpackedFloat.compare, UnpackedFloat.isNaN, unsigned]
  | finite a =>
    cases y with
    | infinity b | finite b =>
      cases a <;> cases b <;> simp [UnpackedFloat.compare, UnpackedFloat.isNaN, unsigned, and_comm]
    | _ => cases a <;> simp [UnpackedFloat.compare, UnpackedFloat.isNaN, unsigned]

end Number

namespace Value

/-- What a value is the same by: a number by its double, any other value by itself. -/
def identity : Value → Value ⊕ UnpackedFloat
  | number x => .inr (Number.unsigned x.toModel.unpack)
  | v => .inl v

/-- **Values are the same by what they are.** -/
theorem same_iff {v w : Value} : v.same w = true ↔ v.identity = w.identity := by
  cases v with
  | number x =>
    cases w with
    | number y =>
      rw [same, Number.beq_eq_compare, Number.isNaN_eq, Number.isNaN_eq, Number.equal_iff]
      simp [identity]
    | _ => simp [same, identity]
  | _ => cases w <;> simp [same, identity]

end Value

/-! ## Sorting fails -/

namespace Pointer

variable {s : Store} {p q : Pointer} {ps : List Pointer}

/-- To start from the same value is an equivalence. -/
theorem equivalence_sameRoot (s : Store) :
    Equivalence fun p q : Pointer => p.sameRoot s q = true where
  refl _ := Value.same_iff.2 rfl
  symm h := Value.same_iff.2 (Value.same_iff.1 h).symm
  trans h h' := Value.same_iff.2 ((Value.same_iff.1 h).trans (Value.same_iff.1 h'))

/-- Comparing fails just if the chains start from different values. -/
theorem compare_eq_error_iff {e : PathError} :
    p.compare s q = .error e ↔
      p.sameRoot s q = false ∧ e = .incomparable (p.rootPath s) (q.rootPath s) := by
  rw [compare]
  cases p.sameRoot s q <;> simp [eq_comm]

/-- **A list with pointers into two graphs is not sorted**: the failure is that of two of its
pointers that have no order. -/
theorem sortUnique_eq_error (hp : p ∈ ps) (hq : q ∈ ps) (hroots : p.sameRoot s q = false) :
    ∃ a ∈ ps, ∃ b ∈ ps, a.sameRoot s b = false ∧
      sortUnique s ps = .error (.incomparable (a.rootPath s) (b.rootPath s)) := by
  let lt (p q : Pointer) : Bool := p.order s q == .lt
  have hanswer (a b : Pointer) (yes : Bool) (h : comesBefore s a b = .ok yes) : lt a b = yes := by
    rw [comesBefore, compare] at h
    split at h
    · exact Except.ok.inj h
    · cases h
  -- A sort that compared pointers with one root only would tie all pointers to one root.
  have hasked : ∃ x ∈ (Sorting.sort ps).asked lt, ∃ e, comesBefore s x.1 x.2 = .error e := by
    by_contra hnone
    have hwithin : Inquiry.Within (fun p q => p.sameRoot s q = true) lt (Sorting.sort ps) := by
      intro x hx
      by_contra hdiffer
      exact hnone ⟨x, hx, _, by rw [comesBefore, compare, if_neg hdiffer]; rfl⟩
    have hjoined := Sorting.joined_sort (equivalence_sameRoot s) hwithin
    simp [hjoined p hp q hq] at hroots
  obtain ⟨⟨a, b⟩, hx, e, he, hsort⟩ := Inquiry.tried_eq_error hanswer hasked
  obtain ⟨ha, hb⟩ := Sorting.mem_of_asked_sort hx
  have he : a.compare s b = .error e := by
    rw [comesBefore] at he
    cases hab : a.compare s b with
    | error => simpa [hab, Except.map] using he
    | ok => simp [hab, Except.map] at he
  obtain ⟨hdiffer, rfl⟩ := compare_eq_error_iff.1 he
  refine ⟨a, ha, b, hb, hdiffer, ?_⟩
  rw [sortUnique, sorted, hsort]
  rfl

end Pointer

end PathQuery
