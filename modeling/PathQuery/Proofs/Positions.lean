import PathQuery.Proofs.Integers
import PathQuery.Proofs.Results
import PathQuery.Query.Eval

/-!
# Numbers as predicates

A number in brackets keeps the node at that position. Several numbers in a row each count what the
one before them left, so from the second on they keep something only if they are one.

* names: `atNumber`, `pick`.
* **`narrow_numbers`**: numbers below `2 ^ 53` pick by position. **`pick_eq_nil`**.
-/

namespace PathQuery

/-- What one number in brackets keeps of a list: the items whose position it is, counted from
one. -/
def atNumber {α : Type} (n : Nat) (items : List α) : List α :=
  (items.zipIdx 1).filterMap fun e => if Number.ofNat n == Number.ofNat e.2 then some e.1 else none

theorem map_atNumber {α β : Type} (f : α → β) (n : Nat) (items : List α) :
    (atNumber n items).map f = atNumber n (items.map f) := by
  rw [atNumber, atNumber, List.zipIdx_map, List.filterMap_map, List.map_filterMap]
  refine List.filterMap_congr fun e _ => ?_
  simp only [Function.comp, Prod.map, id]
  split <;> rfl

/-- What numbers in brackets keep of a list, one number after another. -/
def pick {α : Type} (items : List α) : List Nat → List α
  | [] => items
  | n :: ns => pick items[n - 1]?.toList ns

section Pick

variable {α β : Type} {items : List α} {n : Nat} {ns : List Nat}

theorem pick_nil (ns : List Nat) : pick ([] : List α) ns = [] := by
  induction ns with
  | nil => rfl
  | cons n ns ih => simpa [pick] using ih

theorem map_pick (f : α → β) (items : List α) (ns : List Nat) :
    (pick items ns).map f = pick (items.map f) ns := by
  induction ns generalizing items with
  | nil => rfl
  | cons n ns ih =>
    rw [pick, ih, pick, List.getElem?_map]
    cases items[n - 1]? <;> rfl

theorem pick_ones (items : List α) (k : Nat) :
    pick items (n :: List.replicate k 1) = items[n - 1]?.toList := by
  induction k generalizing n items with
  | zero => rfl
  | succ k ih =>
    rw [List.replicate_succ, pick, ih]
    cases items[n - 1]? <;> rfl

/-- Behind the first, only ones keep anything. -/
theorem pick_eq_nil {m : Nat} (hm : m ∈ ns) (h : 0 < m ∧ m ≠ 1) : pick items (n :: ns) = [] := by
  induction ns generalizing n items with
  | nil => simp at hm
  | cons n' ns ih =>
    rw [pick]
    rcases List.mem_cons.1 hm with rfl | hm
    · have hnone : (items[n - 1]?.toList)[m - 1]? = none := by
        have hlength : items[n - 1]?.toList.length ≤ 1 := by cases items[n - 1]? <;> simp
        exact List.getElem?_eq_none (by omega)
      rw [pick, hnone]
      exact pick_nil ns
    · exact ih hm

end Pick

namespace Environment

variable {r : Registry} {env : Environment} {s : Store} {o : Occasion} {nodes : List Pointer}

/-- The node at a position among numbered nodes. -/
theorem filterMap_position {α : Type} {items : List α} {n k : Nat} (hn : k ≤ n) :
    (items.zipIdx k).filterMap (fun e => if n = e.2 then some e.1 else none) =
      items[n - k]?.toList := by
  induction items generalizing k with
  | nil => rfl
  | cons item items ih =>
    rw [List.zipIdx_cons, List.filterMap_cons]
    rcases Nat.eq_or_lt_of_le hn with rfl | hlt
    · have hrest : (items.zipIdx (k + 1)).filterMap
          (fun e => if k = e.2 then some e.1 else none) = [] := by
        refine List.filterMap_eq_nil_iff.2 fun e he => if_neg ?_
        have := List.le_snd_of_mem_zipIdx he
        omega
      simp [hrest]
    · obtain ⟨d, rfl⟩ : ∃ d, n = k + 1 + d := ⟨n - (k + 1), by omega⟩
      rw [if_neg (by simp; omega), ih (by omega)]
      simp [show k + 1 + d - k = d + 1 by omega]

/-- Small numbers are positions. -/
theorem atNumber_eq {α : Type} {items : List α} {n : Nat} (hpos : 0 < n) (hlt : n < 2 ^ 53) :
    atNumber n items = items[n - 1]?.toList := by
  rw [← filterMap_position hpos, atNumber]
  refine List.filterMap_congr fun e he => ?_
  have hposition := List.le_snd_of_mem_zipIdx he
  rw [show (Number.ofNat n == Number.ofNat e.2) = decide (n = e.2) from
    Number.ofNat_beq_ofNat hpos hlt (by omega)]
  simp

theorem filterMapM_eq_ok {α β : Type} {f : α → Except PathError (Option β)} {g : α → Option β}
    {l : List α} (h : ∀ a ∈ l, f a = .ok (g a)) : l.filterMapM f = .ok (l.filterMap g) := by
  induction l with
  | nil => rfl
  | cons a l ih =>
    rw [List.filterMapM_cons, h a (List.mem_cons_self ..),
      ih fun b hb => h b (List.mem_cons_of_mem _ hb), List.filterMap_cons]
    cases g a <;> rfl

/-- A number in brackets keeps the nodes whose position it is. -/
theorem narrow_number (n : Nat) (predicates : List Expr) :
    env.narrow r (.number (Number.ofNat n) :: predicates) o nodes s =
      env.narrow r predicates (o.part 1) (atNumber n nodes) s := by
  rw [narrow, filterMapM_eq_ok]
  · rfl
  · intro e _
    simp [compute, Action.peek_eq, Action.result_bind, Action.result_map, Outcome.all, keeps]

/-- **Numbers in brackets pick by position.** -/
theorem narrow_numbers {ns : List Nat} (hns : ∀ n ∈ ns, 0 < n ∧ n < 2 ^ 53) :
    env.narrow r (ns.map fun n => .number (Number.ofNat n)) o nodes s = .ok (pick nodes ns) := by
  induction ns generalizing o nodes with
  | nil =>
    rw [List.map_nil, narrow, pick]
    rfl
  | cons n ns ih =>
    obtain ⟨hpos, hlt⟩ := hns n (List.mem_cons_self ..)
    rw [List.map_cons, narrow_number, atNumber_eq hpos hlt, pick]
    exact ih fun m hm => hns m (List.mem_cons_of_mem _ hm)

end Environment

end PathQuery
