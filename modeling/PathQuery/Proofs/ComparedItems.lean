import PathQuery.Sorting

/-!
# What a sort compares

However the questions are answered, a sort compares enough pairs to tie all items of the list
together: where comparing goes on within the classes of an equivalence only, there is one class.

* names: `Joined`, `Inquiry.Within`.
* **`joined_sort`**: if a sort compares related items only, all items are related.
-/

namespace PathQuery

/-! ## Questions within classes -/

namespace Inquiry

variable {α β γ : Type} (E : α → α → Prop) (lt : α → α → Bool)

/-- All questions are about related items. -/
def Within (x : Inquiry α β) : Prop := ∀ q ∈ x.asked lt, E q.1 q.2

variable {x : Inquiry α β} {f : β → Inquiry α γ}

@[simp] theorem within_pure (b : β) : Within E lt (pure b : Inquiry α β) := by simp [Within]

@[simp] theorem within_less (a b : α) : Within E lt (less a b) ↔ E a b := by simp [Within]

@[simp] theorem within_bind :
    Within E lt (x >>= f) ↔ Within E lt x ∧ Within E lt (f (x.answered lt)) := by
  simp only [Within, asked_bind, List.forall_mem_append]

@[simp] theorem within_map (g : β → γ) : Within E lt (g <$> x) ↔ Within E lt x := by
  simp only [Within, asked_map]

end Inquiry

namespace Sorting

open Inquiry

variable {α : Type} {E : α → α → Prop} {lt : α → α → Bool} {a b : α} {l r : List α}

/-! ## Lists of related items -/

/-- All items of a list are related. -/
def Joined (E : α → α → Prop) (l : List α) : Prop := ∀ a ∈ l, ∀ b ∈ l, E a b

theorem joined_nil : Joined E ([] : List α) := by simp [Joined]

theorem Joined.of_subset (h : Joined E r) (hl : l ⊆ r) : Joined E l :=
  fun a ha b hb => h a (hl ha) b (hl hb)

theorem Joined.perm (h : Joined E r) (hl : l.Perm r) : Joined E l := h.of_subset hl.subset

/-- A list is joined if its two parts are, in whatever order. -/
theorem Joined.of_parts {l' r' : List α} {n : Nat} (h : Joined E (l' ++ r'))
    (hl : l'.Perm (l.take n)) (hr : r'.Perm (l.drop n)) : Joined E l :=
  h.perm ((List.Perm.of_eq (List.take_append_drop n l).symm).trans (hl.symm.append hr.symm))

variable (hE : Equivalence E)

include hE

theorem joined_singleton (a : α) : Joined E [a] := by simpa [Joined] using hE.refl a

/-- Two lists of related items are tied together by one pair. -/
theorem Joined.append (hl : Joined E l) (hr : Joined E r) (ha : a ∈ l) (hb : b ∈ r) (hab : E a b) :
    Joined E (l ++ r) := by
  have hcross : ∀ x ∈ l, ∀ y ∈ r, E x y := fun x hx y hy =>
    hE.trans (hl x hx a ha) (hE.trans hab (hr b hb y hy))
  intro x hx y hy
  rcases List.mem_append.1 hx with hx | hx <;> rcases List.mem_append.1 hy with hy | hy
  · exact hl x hx y hy
  · exact hcross x hx y hy
  · exact hE.symm (hcross y hy x hx)
  · exact hr x hx y hy

theorem Joined.cons (hl : Joined E l) (hb : b ∈ l) (hab : E a b) : Joined E (a :: l) :=
  (joined_singleton hE a).append hE hl List.mem_cons_self hb hab

/-! ## Insertion and merging -/

theorem joined_putAmong (h : Within E lt (putAmong a l)) (hl : Joined E l) : Joined E (a :: l) := by
  cases l with
  | nil => exact joined_singleton hE a
  | cons b l =>
    rw [putAmong, within_bind, within_less] at h
    exact hl.cons hE List.mem_cons_self h.1

theorem joined_foldlM_putAmong {before items : List α}
    (h : Within E lt (items.foldlM (fun before a => putAmong a before) before))
    (hbefore : Joined E before) : Joined E (items ++ before) := by
  induction items generalizing before with
  | nil => exact hbefore
  | cons a items ih =>
    rw [List.foldlM_cons, within_bind] at h
    have hperm := putAmong_perm lt a before
    have hput := (joined_putAmong hE h.1 hbefore).perm hperm
    exact (ih h.2 hput).perm (List.perm_middle.symm.trans (hperm.symm.append_left items))

theorem joined_insertAll {sorted items : List α} (h : Within E lt (insertAll sorted items))
    (hsorted : Joined E sorted) : Joined E (sorted ++ items) := by
  rw [insertAll, within_bind] at h
  refine (joined_foldlM_putAmong hE h.1 (hsorted.perm (List.reverse_perm sorted))).perm ?_
  exact List.perm_append_comm.trans ((List.reverse_perm sorted).symm.append_left items)

section Merging

variable {passes : α → α → Inquiry α Bool} (hpasses : ∀ {a b}, Within E lt (passes a b) → E a b)

include hpasses

/-- Merging starts with the first items of both lists. -/
theorem joined_mergeOnto {taken : List α} {n : Nat} (hn : l ≠ [] → 0 < n)
    (h : Within E lt (mergeOnto passes taken n l r)) (hl : Joined E l) (hr : Joined E r) :
    Joined E (l ++ r) := by
  match l, r, n with
  | [], r, n => exact hr
  | a :: l, [], n => exact (List.append_nil (a :: l)).symm ▸ hl
  | a :: l, b :: r, 0 => simp at hn
  | a :: l, b :: r, n + 1 =>
    rw [mergeOnto, within_bind] at h
    exact hl.append hE hr List.mem_cons_self List.mem_cons_self (hpasses h.1)

theorem joined_merge (h : Within E lt (merge passes l r)) (hl : Joined E l) (hr : Joined E r) :
    Joined E (l ++ r) := by
  rw [merge, within_bind] at h
  refine joined_mergeOnto hE hpasses (fun hne => ?_) h.1 hl hr
  have := List.length_pos_iff.2 hne
  omega

end Merging

theorem joined_mergeFront (h : Within E lt (mergeFront l r)) (hl : Joined E l) (hr : Joined E r) :
    Joined E (l ++ r) :=
  joined_merge hE (fun h => hE.symm ((within_less E lt _ _).1 h)) h hl hr

theorem joined_mergeBack (h : Within E lt (mergeBack l r)) (hl : Joined E l) (hr : Joined E r) :
    Joined E (l ++ r) := by
  rw [mergeBack, within_bind] at h
  have hmerged := joined_merge hE (fun h => (within_less E lt _ _).1 h) h.1
    (hr.perm (List.reverse_perm r)) (hl.perm (List.reverse_perm l))
  rw [← List.reverse_append] at hmerged
  exact hmerged.perm (List.reverse_perm _).symm

theorem joined_mergeInward (h : Within E lt (mergeInward l r)) (hl : Joined E l)
    (hr : Joined E r) : Joined E (l ++ r) := by
  rw [mergeInward, within_bind] at h
  exact joined_mergeOnto hE (fun h => hE.symm ((within_less E lt _ _).1 h))
    (fun hne => List.length_pos_iff.2 hne) h.1 hl hr

theorem joined_mergeRuns (h : Within E lt (mergeRuns l r)) (hl : Joined E l) (hr : Joined E r) :
    Joined E (l ++ r) := by
  unfold mergeRuns at h
  split at h
  · exact joined_mergeFront hE h hl hr
  · exact joined_mergeBack hE h hl hr

/-! ## Runs -/

theorem joined_ascent (h : Within E lt (ascent a l)) :
    Joined E (a :: ((ascent a l).answered lt).1) := by
  induction l generalizing a with
  | nil => exact joined_singleton hE a
  | cons b l ih =>
    rw [ascent, within_bind, within_less, answered_less] at h
    rw [ascent, answered_bind, answered_less]
    obtain ⟨hab, h⟩ := h
    split at h
    · next hlt =>
      rw [if_pos hlt]
      exact joined_singleton hE a
    · next hlt =>
      rw [if_neg hlt]
      rw [within_bind] at h
      simp only [answered_bind, answered_pure]
      exact (ih h.1).cons hE List.mem_cons_self (hE.symm hab)

theorem joined_descent (h : Within E lt (descent a l)) :
    Joined E (a :: ((descent a l).answered lt).1) := by
  induction l generalizing a with
  | nil => exact joined_singleton hE a
  | cons b l ih =>
    rw [descent, within_bind, within_less, answered_less] at h
    rw [descent, answered_bind, answered_less]
    obtain ⟨hab, h⟩ := h
    split at h
    · next hlt =>
      rw [if_pos hlt]
      rw [within_bind] at h
      simp only [answered_bind, answered_pure]
      exact (ih h.1).cons hE List.mem_cons_self (hE.symm hab)
    · next hlt =>
      rw [if_neg hlt]
      exact joined_singleton hE a

theorem joined_leadingRun (h : Within E lt (leadingRun l)) :
    Joined E ((leadingRun l).answered lt).1 := by
  match l with
  | [] => exact joined_nil
  | [a] => exact joined_singleton hE a
  | a :: b :: l =>
    rw [leadingRun, within_bind, within_less, answered_less] at h
    rw [leadingRun, answered_bind, answered_less]
    obtain ⟨hab, h⟩ := h
    split at h
    · next hlt =>
      rw [if_pos hlt]
      rw [within_bind] at h
      simp only [answered_bind, answered_pure]
      have hrun := (joined_descent hE h.1).cons hE List.mem_cons_self (hE.symm hab)
      exact hrun.perm (List.reverse_perm _)
    · next hlt =>
      rw [if_neg hlt]
      rw [within_bind] at h
      simp only [answered_bind, answered_pure]
      exact (joined_ascent hE h.1).cons hE List.mem_cons_self (hE.symm hab)

/-! ## Blocks -/

theorem related_of_ordered (h : Within E lt (ordered a b)) : E a b := by
  rw [ordered, within_bind, within_less] at h
  exact hE.symm h.1

theorem joined_sortFour {c d : α} (h : Within E lt (sortFour a b c d)) : Joined E [a, b, c, d] := by
  simp only [sortFour, mergePairs, within_bind, within_less] at h
  obtain ⟨hab, hcd, hcross, -⟩ := h
  have hpair {x y : α} (hxy : E x y) : Joined E [x, y] :=
    (joined_singleton hE y).cons hE List.mem_cons_self hxy
  have hperm (x y : α) := ordered_perm lt x y
  have hl := (hpair (related_of_ordered hE hab)).perm (hperm a b)
  have hr := (hpair (related_of_ordered hE hcd)).perm (hperm c d)
  refine (hl.append hE hr List.mem_cons_self List.mem_cons_self (hE.symm hcross)).perm ?_
  exact ((hperm a b).append (hperm c d)).symm

theorem joined_sortStart (h : Within E lt (sortStart l)) : Joined E l := by
  unfold sortStart at h
  split at h
  · exact joined_sortFour hE h
  · simp only [within_bind] at h
    obtain ⟨hl, hr, h⟩ := h
    have hmerged := joined_mergeInward hE h ((joined_sortFour hE hl).perm (sortFour_perm lt ..))
      ((joined_sortFour hE hr).perm (sortFour_perm lt ..))
    exact hmerged.perm ((sortFour_perm lt ..).append (sortFour_perm lt ..)).symm
  · exact joined_insertAll hE h joined_nil

theorem joined_sortHalf {n : Nat} (h : Within E lt (sortHalf n l)) : Joined E l := by
  rw [sortHalf, within_bind] at h
  have hstart := (joined_sortStart hE h.1).perm (sortStart_perm lt _)
  exact (joined_insertAll hE h.2 hstart).of_parts (sortStart_perm lt _) .rfl

theorem joined_sortBlock (h : Within E lt (sortBlock l)) : Joined E l := by
  simp only [sortBlock, within_bind] at h
  obtain ⟨hl, hr, h⟩ := h
  have hmerged := joined_mergeInward hE h ((joined_sortHalf hE hl).perm (sortHalf_perm lt _ _))
    ((joined_sortHalf hE hr).perm (sortHalf_perm lt _ _))
  exact hmerged.of_parts (sortHalf_perm lt _ _) (sortHalf_perm lt _ _)

/-! ## Sorting -/

theorem joined_sortPiece {least : Nat} (h : Within E lt (sortPiece least l)) : Joined E l := by
  have hperm := leadingRun_perm lt l
  rw [sortPiece, within_bind] at h
  have hrun := joined_leadingRun hE h.1
  replace h := h.2
  generalize (leadingRun l).answered lt = cut at *
  obtain ⟨run, rest⟩ := cut
  dsimp only at hperm hrun h
  split at h
  · next hrest =>
    obtain rfl : rest = [] := by simp_all
    rw [List.append_nil] at hperm
    exact hrun.perm hperm.symm
  · exact joined_sortBlock hE h

theorem joined_sortPieces (h : Within E lt (sortPieces l)) : Joined E l := by
  have hperm := leadingRun_perm lt l
  rw [sortPieces, within_bind] at h
  have hrun := joined_leadingRun hE h.1
  replace h := h.2
  generalize (leadingRun l).answered lt = cut at *
  obtain ⟨run, rest⟩ := cut
  dsimp only at hperm hrun h
  split at h
  · rw [within_bind] at h
    have hsorted := sortPiece_perm lt (l.length - l.length / 2) rest
    have hmerged := joined_mergeRuns hE h.2 hrun ((joined_sortPiece hE h.1).perm hsorted)
    exact hmerged.perm (hperm.symm.trans (hsorted.symm.append_left run))
  · simp only [within_bind] at h
    obtain ⟨hl, hr, h⟩ := h
    have hmerged := joined_mergeRuns hE h ((joined_sortBlock hE hl).perm (sortBlock_perm lt _))
      ((joined_sortPiece hE hr).perm (sortPiece_perm lt _ _))
    exact hmerged.of_parts (sortBlock_perm lt _) (sortPiece_perm lt _ _)

theorem joined_sortHalves (h : Within E lt (sortHalves l)) : Joined E l := by
  induction l using sortHalves.induct with
  | case1 l hle =>
    cases l with
    | nil => exact joined_nil
    | cons a l =>
      obtain rfl : l = [] := List.length_eq_zero_iff.1 (by simpa using hle)
      exact joined_singleton hE a
  | case2 l hle half ihl ihr =>
    rw [sortHalves, if_neg hle] at h
    simp only [within_bind] at h
    obtain ⟨hl, hr, h⟩ := h
    have hmerged := joined_mergeFront hE h ((ihl hl).perm (sortHalves_perm lt _))
      ((ihr hr).perm (sortHalves_perm lt _))
    exact hmerged.of_parts (sortHalves_perm lt _) (sortHalves_perm lt _)

/-- **A sort ties all items together.** If it compares related items only, all of them are
related. -/
theorem joined_sort (h : Within E lt (sort l)) : Joined E l := by
  unfold sort at h
  split at h
  · exact joined_insertAll hE h joined_nil
  · split at h
    · exact joined_sortPieces hE h
    · exact joined_sortHalves hE h

end Sorting

end PathQuery
