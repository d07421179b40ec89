import PathQuery.Proofs.DocumentOrder
import PathQuery.Proofs.SortedMembers
import PathQuery.Proofs.Trees

/-!
# One pointer for each path

Sorting the pointers at addresses of a tree, one for each path, gives one pointer for each chain, in
document order.

* names: `path_uniqueFrom`, `exists_mem_uniqueFrom`, `Precedes`.
* **`sortUnique_eq_ok`**.
-/

namespace PathQuery

namespace Pointer

variable {s : Store} {root : Holder} {p q : Pointer} {ps : List Pointer} {seen : TextSet}

theorem uniqueFrom_sublist : (uniqueFrom s seen ps).Sublist ps := by
  induction ps generalizing seen with
  | nil => exact .slnil
  | cons p ps ih =>
    rw [uniqueFrom]
    split
    · exact ih.cons p
    · exact ih.cons_cons p

/-- The pointers that are left have paths of their own. -/
theorem path_uniqueFrom :
    (uniqueFrom s seen ps).Pairwise (fun p q => p.path s ≠ q.path s) ∧
      ∀ p ∈ uniqueFrom s seen ps, seen.contains (p.path s) = false := by
  induction ps generalizing seen with
  | nil => simp [uniqueFrom]
  | cons p ps ih =>
    rw [uniqueFrom]
    split
    · exact ih
    · next hp =>
      obtain ⟨hpairs, hseen⟩ := @ih (seen.insert (p.path s))
      simp only [Std.TreeSet.contains_insert, Bool.or_eq_false_iff] at hseen
      refine ⟨List.pairwise_cons.2 ⟨fun q hq heq => ?_, hpairs⟩, fun q hq => ?_⟩
      · have := (hseen q hq).1
        simp [heq] at this
      · rcases List.mem_cons.1 hq with rfl | hq
        · exact Bool.eq_false_iff.2 hp
        · exact (hseen q hq).2

/-- No path is lost. -/
theorem exists_mem_uniqueFrom (hp : p ∈ ps) (hseen : seen.contains (p.path s) = false) :
    ∃ q ∈ uniqueFrom s seen ps, q.path s = p.path s := by
  induction ps generalizing seen with
  | nil => simp at hp
  | cons p' ps ih =>
    rw [uniqueFrom]
    split
    · next h =>
      rcases List.mem_cons.1 hp with rfl | hp
      · simp [hseen] at h
      · exact ih hp hseen
    · by_cases heq : p'.path s = p.path s
      · exact ⟨p', List.mem_cons_self .., heq⟩
      · rcases List.mem_cons.1 hp with rfl | hp
        · exact absurd rfl heq
        · have hseen' : (seen.insert (p'.path s)).contains (p.path s) = false := by
            simp [Std.TreeSet.contains_insert, hseen, heq]
          obtain ⟨q, hq, hpath⟩ := ih hp hseen'
          exact ⟨q, List.mem_cons_of_mem _ hq, hpath⟩

/-- The second pointer does not come before the first and stands at another chain. -/
def Precedes (s : Store) (p q : Pointer) : Prop := q.order s p ≠ .lt ∧ q.nodes ≠ p.nodes

theorem sameRoot_of_linked {r : Node} (hp : Linked s r p.nodes) (hq : Linked s r q.nodes) :
    p.sameRoot s q = true := by
  rw [sameRoot, origin_of_linked hp, origin_of_linked hq, Value.same_refl]

/-- Pointers into one graph are sorted, and none comes before those that it is sorted behind. -/
theorem exists_sorted {r : Node} (hps : ∀ p ∈ ps, Linked s r p.nodes) :
    ∃ us, sorted s ps = .ok us ∧ us.Perm ps ∧ us.Pairwise fun p q => q.order s p ≠ .lt := by
  let lt (p q : Pointer) : Bool := p.order s q == .lt
  have hswap (a b : Pointer) : b.compareLineages s a = (a.compareLineages s b).swap :=
    Std.OrientedCmp.eq_swap
  have hle {a b : Pointer} (ha : Linked s r a.nodes) (hb : Linked s r b.nodes) :
      Sorting.notAfter lt a b = (a.compareLineages s b).isLE := by
    show (!(b.order s a == .lt)) = _
    rw [order_eq_compareLineages hb ha, hswap a b]
    cases a.compareLineages s b <;> rfl
  have hsorted : Sorting.Sorted lt ((Sorting.sort ps).answered lt) := by
    refine Sorting.sorted_sort_of_forall (P := fun p => Linked s r p.nodes) ?_ ?_ hps
    · intro a b c ha hb hc hab hbc
      rw [hle ha hb] at hab
      rw [hle hb hc] at hbc
      rw [hle ha hc]
      exact Std.TransCmp.isLE_trans hab hbc
    · intro a b ha hb
      rw [hle ha hb, hle hb ha, hswap a b]
      cases a.compareLineages s b <;> rfl
  refine ⟨_, Inquiry.tried_eq_ok fun x hx => ?_, Sorting.sort_perm lt ps, ?_⟩
  · obtain ⟨ha, hb⟩ := Sorting.mem_of_asked_sort hx
    rw [comesBefore, compare, sameRoot_of_linked (hps _ ha) (hps _ hb)]
    rfl
  · refine hsorted.imp fun {p q} h => ?_
    simpa [Sorting.notAfter, lt] using h

/-- **Sorted pointers at addresses come in document order, one for each chain.** -/
theorem sortUnique_eq_ok (ht : s.IsTree root.value) (hps : ∀ p ∈ ps, IsAddressed s root p) :
    ∃ us, sortUnique s ps = .ok us ∧
      us.Pairwise (Precedes s) ∧ (∀ p ∈ us, p ∈ ps) ∧ ∀ p ∈ ps, ∃ q ∈ us, q.nodes = p.nodes := by
  obtain ⟨sps, hsorted, hperm, horder⟩ := exists_sorted fun p hp => (hps p hp).linked
  refine ⟨unique s sps, by rw [sortUnique, hsorted]; rfl, ?_,
    fun p hp => hperm.mem_iff.1 (mem_of_mem_uniqueFrom hp), fun p hp => ?_⟩
  · have hpaths : (unique s sps).Pairwise fun p q => p.path s ≠ q.path s := path_uniqueFrom.1
    refine (hpaths.and (horder.sublist uniqueFrom_sublist)).imp ?_
    rintro p q ⟨hpath, hlt⟩
    exact ⟨hlt, fun hnodes => hpath (by rw [path, path, hnodes])⟩
  · obtain ⟨q, hq, hpath⟩ :=
      exists_mem_uniqueFrom (hperm.mem_iff.2 hp) Std.TreeSet.contains_emptyc
    refine ⟨q, hq, (nodes_eq_iff_path_eq ht.names ht.flat ?_ (hps p hp)).2 hpath⟩
    exact hps q (hperm.mem_iff.1 (mem_of_mem_uniqueFrom hq))

end Pointer

end PathQuery
