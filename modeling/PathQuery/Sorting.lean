import PathQuery.Inquiry

/-!
# Sorting

A stable sort by a relation *less than* that need not be an order. Where it is one, sorting gives
what every stable sort gives; where it is none, which items are compared decides, so the way of
sorting is part of the meaning: few items are sorted by insertion, more of them as runs and blocks
that are merged. Sorting is an inquiry, since a comparison may fail: which pairs are compared then
decides whether there is a result.

* names: `insertAll`, `mergeFront`, `mergeBack`, `mergeInward`, `leadingRun`, `sortBlock`, `sort`.
* **`sort_perm`**: nothing is lost or made up. **`sorted_sort`**: where *not after* is a total
  preorder, the result is sorted by it.
-/

namespace PathQuery.Sorting

open Inquiry (less)

variable {α : Type}

/-! ## Insertion -/

/-- An item put among sorted ones, the last first: it moves forward past those it is less than. -/
def putAmong (a : α) : List α → Inquiry α (List α)
  | [] => pure [a]
  | b :: before => do
    if ← less a b then pure (b :: (← putAmong a before)) else pure (a :: b :: before)

/-- Items put among sorted ones, one after another from the end. -/
def insertAll (sorted items : List α) : Inquiry α (List α) := do
  pure (← items.foldlM (fun before a => putAmong a before) sorted.reverse).reverse

/-! ## Merging -/

/-- The first `n` items of a merge after those already taken, the last first, and what is left of
the two lists. `passes a b` asks whether `b` of the second list goes before `a` of the first. -/
def mergeOnto (passes : α → α → Inquiry α Bool) (taken : List α) :
    Nat → List α → List α → Inquiry α (List α × List α × List α)
  | n + 1, a :: l, b :: r => do
    if ← passes a b then mergeOnto passes (b :: taken) n (a :: l) r
    else mergeOnto passes (a :: taken) n l (b :: r)
  | _, l, r => pure (taken.reverse, l, r)

/-- Two sorted lists merged. -/
def merge (passes : α → α → Inquiry α Bool) (l r : List α) : Inquiry α (List α) := do
  let (front, l, r) ← mergeOnto passes [] (l.length + r.length) l r
  pure (front ++ (l ++ r))

/-- Two sorted lists merged from the front. -/
def mergeFront (l r : List α) : Inquiry α (List α) := merge (fun a b => less b a) l r

/-- Two sorted lists merged from the back. -/
def mergeBack (l r : List α) : Inquiry α (List α) := do
  pure (← merge (fun b a => less b a) r.reverse l.reverse).reverse

/-- Two sorted lists merged from both ends: as many items from the front as the first list has, the
others from the back. -/
def mergeInward (l r : List α) : Inquiry α (List α) := do
  let (front, l, r) ← mergeOnto (fun a b => less b a) [] l.length l r
  pure (front ++ (← mergeBack l r))

/-- Two sorted lists merged, starting at the end of the longer one. -/
def mergeRuns (l r : List α) : Inquiry α (List α) :=
  if l.length ≤ r.length then mergeFront l r else mergeBack l r

/-! ## Runs -/

/-- The items that follow an item without descending, and the others. -/
def ascent (a : α) : List α → Inquiry α (List α × List α)
  | [] => pure ([], [])
  | b :: l => do
    if ← less b a then pure ([], b :: l)
    else
      let (run, rest) ← ascent b l
      pure (b :: run, rest)

/-- The items that follow an item descending all the way, and the others. -/
def descent (a : α) : List α → Inquiry α (List α × List α)
  | [] => pure ([], [])
  | b :: l => do
    if ← less b a then
      let (run, rest) ← descent b l
      pure (b :: run, rest)
    else pure ([], b :: l)

/-- The longest run at the front of a list, put in order if it descends, and the items after it. -/
def leadingRun : List α → Inquiry α (List α × List α)
  | a :: b :: l => do
    if ← less b a then
      let (run, rest) ← descent b l
      pure ((a :: b :: run).reverse, rest)
    else
      let (run, rest) ← ascent b l
      pure (a :: b :: run, rest)
  | l => pure (l, [])

/-! ## Blocks -/

/-- Two items, the lesser first. -/
def ordered (a b : α) : Inquiry α (α × α) := do
  if ← less b a then pure (b, a) else pure (a, b)

/-- Two sorted pairs merged: the least and the greatest of all, then the two between. -/
def mergePairs (a b c d : α) : Inquiry α (List α) := do
  let (least, x, y, greatest) :=
    match ← less c a, ← less d b with
    | false, false => (a, b, c, d)
    | false, true => (a, c, d, b)
    | true, false => (c, a, b, d)
    | true, true => (c, a, d, b)
  let (x, y) ← ordered x y
  pure [least, x, y, greatest]

/-- Four items sorted. -/
def sortFour (a b c d : α) : Inquiry α (List α) := do
  let (a, b) ← ordered a b
  let (c, d) ← ordered c d
  mergePairs a b c d

/-- The beginning of half a block sorted: eight items, four or fewer. -/
def sortStart : List α → Inquiry α (List α)
  | [a, b, c, d] => sortFour a b c d
  | [a, b, c, d, e, f, g, h] => do mergeInward (← sortFour a b c d) (← sortFour e f g h)
  | l => insertAll [] l

/-- Half a block sorted: its first `n` items, among which the others are put. -/
def sortHalf (n : Nat) (l : List α) : Inquiry α (List α) := do
  insertAll (← sortStart (l.take n)) (l.drop n)

/-- A block sorted: its halves, merged from both ends. -/
def sortBlock (l : List α) : Inquiry α (List α) := do
  let n := if 16 ≤ l.length then 8 else if 8 ≤ l.length then 4 else 1
  let half := l.length / 2
  mergeInward (← sortHalf n (l.take half)) (← sortHalf n (l.drop half))

/-! ## Sorting -/

/-- A list sorted: as it stands if it is one run of a length worth keeping, else as a block. -/
def sortPiece (least : Nat) (l : List α) : Inquiry α (List α) := do
  let (run, rest) ← leadingRun l
  if least ≤ run.length && rest.isEmpty then pure run else sortBlock l

/-- A list sorted as two pieces: a run that takes up half of it or a block of 32 items, and the
rest. -/
def sortPieces (l : List α) : Inquiry α (List α) := do
  let least := l.length - l.length / 2
  let (run, rest) ← leadingRun l
  if least ≤ run.length then mergeRuns run (← sortPiece least rest)
  else mergeRuns (← sortBlock (l.take 32)) (← sortPiece least (l.drop 32))

/-- A list sorted by halves. -/
def sortHalves (l : List α) : Inquiry α (List α) :=
  if l.length ≤ 1 then pure l
  else do
    let half := (l.length + 1) / 2
    mergeFront (← sortHalves (l.take half)) (← sortHalves (l.drop half))
termination_by l.length

/-- A list sorted: up to 20 items by insertion, up to 64 as two pieces, more by halves. -/
def sort (l : List α) : Inquiry α (List α) :=
  if l.length ≤ 20 then insertAll [] l
  else if l.length ≤ 64 then sortPieces l
  else sortHalves l

/-! ## Nothing is lost -/

section Lossless

variable (lt : α → α → Bool)

/-- The first item is not to stand after the second. -/
def notAfter (a b : α) : Bool := !lt b a

theorem putAmong_perm (a : α) (l : List α) : ((putAmong a l).answered lt).Perm (a :: l) := by
  induction l with
  | nil => rfl
  | cons b before ih =>
    rw [putAmong, Inquiry.answered_bind]
    split
    · simpa using (ih.cons b).trans (.swap a b before)
    · rfl

theorem insertAll_perm (sorted items : List α) :
    ((insertAll sorted items).answered lt).Perm (sorted ++ items) := by
  have main (before : List α) :
      ((items.foldlM (fun before a => putAmong a before) before).answered lt).Perm
        (items ++ before) := by
    induction items generalizing before with
    | nil => rfl
    | cons a items ih =>
      rw [List.foldlM_cons, Inquiry.answered_bind]
      refine (ih _).trans (((putAmong_perm lt a before).append_left items).trans ?_)
      exact List.perm_middle
  rw [insertAll, Inquiry.answered_bind, Inquiry.answered_pure]
  refine (List.reverse_perm _).trans ((main sorted.reverse).trans ?_)
  exact List.perm_append_comm.trans ((List.reverse_perm sorted).append_right items)

section Merging

variable (passes : α → α → Inquiry α Bool)

/-- What is left when some items are merged still has to be merged. -/
theorem mergeOnto_append (taken : List α) (n : Nat) (l r : List α) :
    ((mergeOnto passes taken n l r).answered lt).1 ++
      ((mergeOnto passes taken n l r).answered lt).2.1.merge
        ((mergeOnto passes taken n l r).answered lt).2.2
          (fun a b => !(passes a b).answered lt) =
      taken.reverse ++ l.merge r fun a b => !(passes a b).answered lt := by
  induction n generalizing taken l r with
  | zero => simp [mergeOnto]
  | succ n ih =>
    match l, r with
    | [], r => simp [mergeOnto]
    | a :: l, [] => simp [mergeOnto]
    | a :: l, b :: r =>
      rw [mergeOnto, Inquiry.answered_bind, List.cons_merge_cons]
      split
      · next h => simp [ih, h]
      · next h => simp [ih, h]

/-- With as many steps as there are items, one list comes to its end. -/
theorem mergeOnto_ended (taken : List α) {n : Nat} {l r : List α} (h : l.length + r.length ≤ n) :
    ((mergeOnto passes taken n l r).answered lt).2.1 = [] ∨
      ((mergeOnto passes taken n l r).answered lt).2.2 = [] := by
  induction n generalizing taken l r with
  | zero =>
    refine .inl ?_
    simpa [mergeOnto] using List.eq_nil_of_length_eq_zero (show l.length = 0 by omega)
  | succ n ih =>
    match l, r with
    | [], r => exact .inl rfl
    | a :: l, [] => exact .inr rfl
    | a :: l, b :: r =>
      rw [mergeOnto, Inquiry.answered_bind]
      simp only [List.length_cons] at h
      split
      · exact ih _ (by simp only [List.length_cons]; omega)
      · exact ih _ (by simp only [List.length_cons]; omega)

/-- What is left of two lists when some of their items are merged ends them. -/
theorem mergeOnto_suffix (taken : List α) (n : Nat) (l r : List α) :
    ((mergeOnto passes taken n l r).answered lt).2.1 <:+ l ∧
      ((mergeOnto passes taken n l r).answered lt).2.2 <:+ r := by
  induction n generalizing taken l r with
  | zero => simp [mergeOnto]
  | succ n ih =>
    match l, r with
    | [], r => simp [mergeOnto]
    | a :: l, [] => simp [mergeOnto]
    | a :: l, b :: r =>
      rw [mergeOnto, Inquiry.answered_bind]
      split
      · exact ⟨(ih _ _ _).1, (ih _ _ _).2.trans (List.suffix_cons b r)⟩
      · exact ⟨(ih _ _ _).1.trans (List.suffix_cons a l), (ih _ _ _).2⟩

theorem answered_merge (l r : List α) :
    (merge passes l r).answered lt = l.merge r fun a b => !(passes a b).answered lt := by
  have happend := mergeOnto_append lt passes [] (l.length + r.length) l r
  have hended := mergeOnto_ended lt passes [] (Nat.le_refl (l.length + r.length))
  rw [merge, Inquiry.answered_bind]
  generalize (mergeOnto passes [] (l.length + r.length) l r).answered lt = merged at *
  obtain ⟨front, l', r'⟩ := merged
  rw [List.reverse_nil, List.nil_append] at happend
  rw [← happend]
  rcases hended with h | h
  · obtain rfl : l' = [] := h
    simp
  · obtain rfl : r' = [] := h
    simp

end Merging

theorem answered_mergeFront (l r : List α) :
    (mergeFront l r).answered lt = l.merge r (notAfter lt) := answered_merge lt _ l r

theorem answered_mergeBack (l r : List α) :
    (mergeBack l r).answered lt =
      (r.reverse.merge l.reverse fun b a => notAfter lt a b).reverse := by
  rw [mergeBack, Inquiry.answered_bind, Inquiry.answered_pure, answered_merge]
  rfl

theorem mergeFront_perm (l r : List α) : ((mergeFront l r).answered lt).Perm (l ++ r) := by
  rw [answered_mergeFront]
  exact List.merge_perm_append _

theorem mergeBack_perm (l r : List α) : ((mergeBack l r).answered lt).Perm (l ++ r) := by
  rw [answered_mergeBack]
  refine (List.reverse_perm _).trans ((List.merge_perm_append _).trans ?_)
  exact ((List.reverse_perm r).append (List.reverse_perm l)).trans List.perm_append_comm

/-- Where merging inwards turns round. -/
theorem answered_mergeInward (l r : List α) : ∃ front l' r',
    (mergeInward l r).answered lt = front ++ (mergeBack l' r').answered lt ∧
      front ++ l'.merge r' (notAfter lt) = l.merge r (notAfter lt) ∧ l' <:+ l ∧ r' <:+ r := by
  have happend := mergeOnto_append lt (fun a b => less b a) [] l.length l r
  obtain ⟨hl, hr⟩ := mergeOnto_suffix lt (fun a b => less b a) [] l.length l r
  rw [mergeInward, Inquiry.answered_bind]
  generalize (mergeOnto (fun a b => less b a) [] l.length l r).answered lt = merged at *
  obtain ⟨front, l', r'⟩ := merged
  exact ⟨front, l', r', by simp, happend, hl, hr⟩

theorem mergeInward_perm (l r : List α) : ((mergeInward l r).answered lt).Perm (l ++ r) := by
  obtain ⟨front, l', r', h, hmerge, -⟩ := answered_mergeInward lt l r
  rw [h]
  refine ((mergeBack_perm lt l' r').append_left front).trans ?_
  refine ((List.merge_perm_append (notAfter lt)).symm.append_left front).trans ?_
  rw [hmerge]
  exact List.merge_perm_append _

theorem mergeRuns_perm (l r : List α) : ((mergeRuns l r).answered lt).Perm (l ++ r) := by
  unfold mergeRuns
  split
  · exact mergeFront_perm lt l r
  · exact mergeBack_perm lt l r

theorem ascent_append (a : α) (l : List α) :
    ((ascent a l).answered lt).1 ++ ((ascent a l).answered lt).2 = l := by
  induction l generalizing a with
  | nil => rfl
  | cons b l ih =>
    rw [ascent, Inquiry.answered_bind]
    split <;> simp [ih]

theorem descent_append (a : α) (l : List α) :
    ((descent a l).answered lt).1 ++ ((descent a l).answered lt).2 = l := by
  induction l generalizing a with
  | nil => rfl
  | cons b l ih =>
    rw [descent, Inquiry.answered_bind]
    split <;> simp [ih]

theorem leadingRun_perm (l : List α) :
    (((leadingRun l).answered lt).1 ++ ((leadingRun l).answered lt).2).Perm l := by
  match l with
  | [] => rfl
  | [a] => rfl
  | a :: b :: l =>
    rw [leadingRun, Inquiry.answered_bind]
    split
    · simp only [Inquiry.answered_bind, Inquiry.answered_pure]
      refine ((List.reverse_perm _).append_right _).trans ?_
      rw [List.cons_append, List.cons_append, descent_append]
    · simp only [Inquiry.answered_bind, Inquiry.answered_pure]
      rw [List.cons_append, List.cons_append, ascent_append]

theorem answered_ordered (a b : α) :
    (ordered a b).answered lt = if lt b a then (b, a) else (a, b) := by
  rw [ordered, Inquiry.answered_bind, Inquiry.answered_less]
  split <;> rfl

theorem ordered_perm (a b : α) :
    [((ordered a b).answered lt).1, ((ordered a b).answered lt).2].Perm [a, b] := by
  rw [answered_ordered]
  split
  · exact .swap a b []
  · rfl

theorem mergePairs_perm (a b c d : α) : ((mergePairs a b c d).answered lt).Perm [a, b, c, d] := by
  classical
  rw [List.perm_iff_count]
  intro x
  cases hc : lt c a <;> cases hd : lt d b <;> simp only [mergePairs, Inquiry.answered_bind,
      Inquiry.answered_less, Inquiry.answered_pure, answered_ordered, hc, hd] <;>
    split <;> simp only [List.count_cons, List.count_nil] <;> omega

theorem answered_sortFour (a b c d : α) :
    (sortFour a b c d).answered lt =
      (mergePairs ((ordered a b).answered lt).1 ((ordered a b).answered lt).2
        ((ordered c d).answered lt).1 ((ordered c d).answered lt).2).answered lt := by
  simp only [sortFour, Inquiry.answered_bind]

theorem sortFour_perm (a b c d : α) : ((sortFour a b c d).answered lt).Perm [a, b, c, d] := by
  rw [answered_sortFour]
  exact (mergePairs_perm lt _ _ _ _).trans ((ordered_perm lt a b).append (ordered_perm lt c d))

theorem sortStart_perm (l : List α) : ((sortStart l).answered lt).Perm l := by
  unfold sortStart
  split
  · exact sortFour_perm lt ..
  · simp only [Inquiry.answered_bind]
    exact (mergeInward_perm lt _ _).trans ((sortFour_perm lt ..).append (sortFour_perm lt ..))
  · exact insertAll_perm lt [] _

theorem sortHalf_perm (n : Nat) (l : List α) : ((sortHalf n l).answered lt).Perm l := by
  rw [sortHalf, Inquiry.answered_bind]
  refine (insertAll_perm lt _ _).trans ?_
  exact ((sortStart_perm lt _).append_right _).trans (.of_eq (List.take_append_drop n l))

theorem sortBlock_perm (l : List α) : ((sortBlock l).answered lt).Perm l := by
  simp only [sortBlock, Inquiry.answered_bind]
  refine (mergeInward_perm lt _ _).trans ?_
  exact ((sortHalf_perm lt _ _).append (sortHalf_perm lt _ _)).trans
    (.of_eq (List.take_append_drop _ l))

theorem sortPiece_perm (least : Nat) (l : List α) : ((sortPiece least l).answered lt).Perm l := by
  have hrun := leadingRun_perm lt l
  rw [sortPiece, Inquiry.answered_bind]
  generalize (leadingRun l).answered lt = cut at *
  obtain ⟨run, rest⟩ := cut
  dsimp only at hrun ⊢
  split
  · next h =>
    obtain rfl : rest = [] := by simp_all
    simpa using hrun
  · exact sortBlock_perm lt l

theorem sortPieces_perm (l : List α) : ((sortPieces l).answered lt).Perm l := by
  have hrun := leadingRun_perm lt l
  simp only [sortPieces, Inquiry.answered_bind]
  generalize (leadingRun l).answered lt = cut at *
  obtain ⟨run, rest⟩ := cut
  dsimp only at hrun ⊢
  split
  · rw [Inquiry.answered_bind]
    exact (mergeRuns_perm lt _ _).trans (((sortPiece_perm lt _ _).append_left run).trans hrun)
  · simp only [Inquiry.answered_bind]
    refine (mergeRuns_perm lt _ _).trans ?_
    exact ((sortBlock_perm lt _).append (sortPiece_perm lt _ _)).trans
      (.of_eq (List.take_append_drop 32 l))

theorem sortHalves_perm (l : List α) : ((sortHalves l).answered lt).Perm l := by
  induction l using sortHalves.induct with
  | case1 l h => rw [sortHalves, if_pos h]; rfl
  | case2 l h half ihl ihr =>
    rw [sortHalves, if_neg h]
    simp only [Inquiry.answered_bind]
    refine (mergeFront_perm lt _ _).trans ((ihl.append ihr).trans ?_)
    exact .of_eq (List.take_append_drop half l)

theorem sort_perm (l : List α) : ((sort l).answered lt).Perm l := by
  unfold sort
  split
  · exact insertAll_perm lt [] l
  · split
    · exact sortPieces_perm lt l
    · exact sortHalves_perm lt l

end Lossless

/-! ## The result is sorted -/

/-- The list is sorted: no item comes after one that it is less than. -/
abbrev Sorted (lt : α → α → Bool) (l : List α) : Prop := l.Pairwise fun a b => notAfter lt a b

section Preorder

variable {lt : α → α → Bool}
variable (trans : ∀ a b c, notAfter lt a b → notAfter lt b c → notAfter lt a c)
variable (total : ∀ a b, notAfter lt a b || notAfter lt b a)

include trans total

theorem sorted_putAmong (a : α) {before : List α} (h : Sorted lt before.reverse) :
    Sorted lt ((putAmong a before).answered lt).reverse := by
  induction before with
  | nil => simp [putAmong]
  | cons b before ih =>
    have hperm := putAmong_perm lt a before
    simp only [Sorted, List.pairwise_reverse] at h ih ⊢
    obtain ⟨hb, hbefore⟩ := List.pairwise_cons.1 h
    have hab := total a b
    rw [putAmong, Inquiry.answered_bind, Inquiry.answered_less]
    split
    · next hlt =>
      simp only [Inquiry.answered_bind, Inquiry.answered_pure]
      refine List.pairwise_cons.2 ⟨fun c hc => ?_, ih hbefore⟩
      rcases List.mem_cons.1 (hperm.mem_iff.1 hc) with rfl | hc
      · simpa [notAfter, hlt] using hab
      · exact hb c hc
    · next hlt =>
      have hba : notAfter lt b a := by simpa [notAfter] using hlt
      refine List.pairwise_cons.2 ⟨fun c hc => ?_, h⟩
      rcases List.mem_cons.1 hc with rfl | hc
      · exact hba
      · exact trans _ _ _ (hb c hc) hba

theorem sorted_insertAll {sorted : List α} (h : Sorted lt sorted) (items : List α) :
    Sorted lt ((insertAll sorted items).answered lt) := by
  have main (before : List α) (h : Sorted lt before.reverse) :
      Sorted lt
        ((items.foldlM (fun before a => putAmong a before) before).answered lt).reverse := by
    induction items generalizing before with
    | nil => exact h
    | cons a items ih =>
      rw [List.foldlM_cons, Inquiry.answered_bind]
      exact ih _ (sorted_putAmong trans total a h)
  rw [insertAll, Inquiry.answered_bind, Inquiry.answered_pure]
  exact main sorted.reverse (by simpa using h)

theorem sorted_mergeFront {l r : List α} (hl : Sorted lt l) (hr : Sorted lt r) :
    Sorted lt ((mergeFront l r).answered lt) := by
  rw [answered_mergeFront]
  exact List.pairwise_merge trans total l r hl hr

theorem sorted_mergeBack {l r : List α} (hl : Sorted lt l) (hr : Sorted lt r) :
    Sorted lt ((mergeBack l r).answered lt) := by
  rw [answered_mergeBack]
  refine List.pairwise_reverse.2 (List.pairwise_merge ?_ ?_ _ _ ?_ ?_)
  · exact fun a b c hba hcb => trans c b a hcb hba
  · exact fun a b => total b a
  · exact List.pairwise_reverse.2 hr
  · exact List.pairwise_reverse.2 hl

theorem sorted_mergeInward {l r : List α} (hl : Sorted lt l) (hr : Sorted lt r) :
    Sorted lt ((mergeInward l r).answered lt) := by
  obtain ⟨front, l', r', h, hmerge, hl', hr'⟩ := answered_mergeInward lt l r
  have hall := sorted_mergeFront trans total hl hr
  rw [answered_mergeFront, ← hmerge] at hall
  obtain ⟨hfront, -, hcross⟩ := List.pairwise_append.1 hall
  rw [h]
  refine List.pairwise_append.2 ⟨hfront, ?_, fun a ha b hb => hcross a ha b ?_⟩
  · exact sorted_mergeBack trans total (hl.sublist hl'.sublist) (hr.sublist hr'.sublist)
  · exact (List.merge_perm_append _).mem_iff.2 ((mergeBack_perm lt l' r').mem_iff.1 hb)

theorem sorted_mergeRuns {l r : List α} (hl : Sorted lt l) (hr : Sorted lt r) :
    Sorted lt ((mergeRuns l r).answered lt) := by
  unfold mergeRuns
  split
  · exact sorted_mergeFront trans total hl hr
  · exact sorted_mergeBack trans total hl hr

omit total in
theorem sorted_ascent (a : α) (l : List α) :
    Sorted lt (a :: ((ascent a l).answered lt).1) := by
  induction l generalizing a with
  | nil => simp [ascent]
  | cons b l ih =>
    rw [ascent, Inquiry.answered_bind, Inquiry.answered_less]
    split
    · simp
    · next h =>
      have hab : notAfter lt a b := by simpa [notAfter] using h
      simp only [Inquiry.answered_bind, Inquiry.answered_pure]
      refine List.pairwise_cons.2 ⟨fun c hc => ?_, ih b⟩
      rcases List.mem_cons.1 hc with rfl | hc
      · exact hab
      · exact trans _ _ _ hab ((List.pairwise_cons.1 (ih b)).1 c hc)

theorem sorted_descent (a : α) (l : List α) :
    (a :: ((descent a l).answered lt).1).Pairwise fun b c => notAfter lt c b := by
  induction l generalizing a with
  | nil => simp [descent]
  | cons b l ih =>
    rw [descent, Inquiry.answered_bind, Inquiry.answered_less]
    split
    · next h =>
      have hba : notAfter lt b a := by simpa [notAfter, h] using total b a
      simp only [Inquiry.answered_bind, Inquiry.answered_pure]
      refine List.pairwise_cons.2 ⟨fun c hc => ?_, ih b⟩
      rcases List.mem_cons.1 hc with rfl | hc
      · exact hba
      · exact trans _ _ _ ((List.pairwise_cons.1 (ih b)).1 c hc) hba
    · simp

theorem sorted_leadingRun (l : List α) : Sorted lt ((leadingRun l).answered lt).1 := by
  match l with
  | [] => exact .nil
  | [a] => simp [leadingRun]
  | a :: b :: l =>
    rw [leadingRun, Inquiry.answered_bind, Inquiry.answered_less]
    split
    · next h =>
      have hrun := sorted_descent trans total a (b :: l)
      rw [descent, Inquiry.answered_bind, Inquiry.answered_less, if_pos h] at hrun
      simp only [Inquiry.answered_bind, Inquiry.answered_pure] at hrun ⊢
      exact List.pairwise_reverse.2 hrun
    · next h =>
      have hrun := sorted_ascent trans a (b :: l)
      rw [ascent, Inquiry.answered_bind, Inquiry.answered_less, if_neg h] at hrun
      simp only [Inquiry.answered_bind, Inquiry.answered_pure] at hrun ⊢
      exact hrun

theorem sorted_sortFour (a b c d : α) : Sorted lt ((sortFour a b c d).answered lt) := by
  have asymm : ∀ x y, lt x y = true → lt y x = false := by
    intro x y h
    simpa [notAfter, h] using total x y
  have step : ∀ x y z, lt y x = false → lt z y = false → lt z x = false := by
    intro x y z
    simpa [notAfter] using trans x y z
  have pair (x y : α) :
      lt ((ordered x y).answered lt).2 ((ordered x y).answered lt).1 = false := by
    rw [answered_ordered]
    split
    · next h => exact asymm _ _ h
    · next h => simpa using h
  have merged (a b c d : α) (hab : lt b a = false) (hcd : lt d c = false) :
      Sorted lt ((mergePairs a b c d).answered lt) := by
    cases hc : lt c a <;> cases hd : lt d b <;> simp only [mergePairs, Inquiry.answered_bind,
        Inquiry.answered_less, Inquiry.answered_pure, answered_ordered, hc, hd] <;>
      split <;> simp_all [notAfter] <;> grind
  rw [answered_sortFour]
  exact merged _ _ _ _ (pair a b) (pair c d)

theorem sorted_sortStart (l : List α) : Sorted lt ((sortStart l).answered lt) := by
  unfold sortStart
  split
  · exact sorted_sortFour trans total ..
  · simp only [Inquiry.answered_bind]
    exact sorted_mergeInward trans total (sorted_sortFour trans total ..)
      (sorted_sortFour trans total ..)
  · exact sorted_insertAll trans total .nil _

theorem sorted_sortHalf (n : Nat) (l : List α) : Sorted lt ((sortHalf n l).answered lt) := by
  rw [sortHalf, Inquiry.answered_bind]
  exact sorted_insertAll trans total (sorted_sortStart trans total _) _

theorem sorted_sortBlock (l : List α) : Sorted lt ((sortBlock l).answered lt) := by
  simp only [sortBlock, Inquiry.answered_bind]
  exact sorted_mergeInward trans total (sorted_sortHalf trans total _ _)
    (sorted_sortHalf trans total _ _)

theorem sorted_sortPiece (least : Nat) (l : List α) :
    Sorted lt ((sortPiece least l).answered lt) := by
  have hrun := sorted_leadingRun trans total l
  rw [sortPiece, Inquiry.answered_bind]
  generalize (leadingRun l).answered lt = cut at *
  obtain ⟨run, rest⟩ := cut
  dsimp only at hrun ⊢
  split
  · exact hrun
  · exact sorted_sortBlock trans total l

theorem sorted_sortPieces (l : List α) : Sorted lt ((sortPieces l).answered lt) := by
  have hrun := sorted_leadingRun trans total l
  simp only [sortPieces, Inquiry.answered_bind]
  generalize (leadingRun l).answered lt = cut at *
  obtain ⟨run, rest⟩ := cut
  dsimp only at hrun ⊢
  split
  · rw [Inquiry.answered_bind]
    exact sorted_mergeRuns trans total hrun (sorted_sortPiece trans total _ _)
  · simp only [Inquiry.answered_bind]
    exact sorted_mergeRuns trans total (sorted_sortBlock trans total _)
      (sorted_sortPiece trans total _ _)

theorem sorted_sortHalves (l : List α) : Sorted lt ((sortHalves l).answered lt) := by
  induction l using sortHalves.induct with
  | case1 l h =>
    rw [sortHalves, if_pos h, Inquiry.answered_pure]
    match l with
    | [] => exact .nil
    | [a] => exact List.pairwise_singleton ..
  | case2 l h half ihl ihr =>
    rw [sortHalves, if_neg h]
    simp only [Inquiry.answered_bind]
    exact sorted_mergeFront trans total ihl ihr

theorem sorted_sort (l : List α) : Sorted lt ((sort l).answered lt) := by
  unfold sort
  split
  · exact sorted_insertAll trans total .nil l
  · split
    · exact sorted_sortPieces trans total l
    · exact sorted_sortHalves trans total l

end Preorder

end PathQuery.Sorting
