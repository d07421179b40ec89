import PathQuery.Sorting

/-!
# Sorting what a map gives

Sorting the images of items is sorting the items, with questions about their images. A relation that
orders only some items therefore sorts every list of those, and sorting asks about the items of the
list and no others.

* names: `sort_map`, with one law for each part of the sort.
* **`sorted_sort_of_forall`**: it is enough that the relation orders the items of the list.
-/

namespace PathQuery.Sorting

open Inquiry (less)

variable {α β : Type} (f : β → α)

/-! ## Insertion and merging -/

theorem putAmong_map (b : β) (l : List β) :
    putAmong (f b) (l.map f) = List.map f <$> (putAmong b l).reindex f := by
  induction l with
  | nil => rfl
  | cons c l ih =>
    simp only [List.map_cons, putAmong, ih, Inquiry.reindex_bind, Inquiry.reindex_less, map_bind]
    refine bind_congr fun yes => ?_
    cases yes <;> simp

theorem insertAll_map (sorted items : List β) :
    insertAll (sorted.map f) (items.map f) = List.map f <$> (insertAll sorted items).reindex f := by
  have main (before : List β) :
      (items.map f).foldlM (fun before a => putAmong a before) (before.map f) =
        List.map f <$> (items.foldlM (fun before a => putAmong a before) before).reindex f := by
    induction items generalizing before with
    | nil => rfl
    | cons b items ih =>
      simp only [List.map_cons, List.foldlM_cons, putAmong_map, Inquiry.reindex_bind, bind_map_left,
        map_bind, ih]
  simp [insertAll, ← List.map_reverse, main]

section Merging

variable (passes : α → α → Inquiry α Bool) (passes' : β → β → Inquiry β Bool)
variable (hpasses : ∀ a b, passes (f a) (f b) = (passes' a b).reindex f)

include hpasses

theorem mergeOnto_map (taken : List β) (n : Nat) (l r : List β) :
    mergeOnto passes (taken.map f) n (l.map f) (r.map f) =
      (fun x => (x.1.map f, x.2.1.map f, x.2.2.map f)) <$>
        (mergeOnto passes' taken n l r).reindex f := by
  induction n generalizing taken l r with
  | zero => simp [mergeOnto]
  | succ n ih =>
    cases l with
    | nil => simp [mergeOnto]
    | cons a l =>
      cases r with
      | nil => simp [mergeOnto]
      | cons b r =>
        simp only [List.map_cons, mergeOnto, Inquiry.reindex_bind, hpasses, map_bind]
        refine bind_congr fun yes => ?_
        cases yes
        · simpa using ih (a :: taken) l (b :: r)
        · simpa using ih (b :: taken) (a :: l) r

theorem merge_map (l r : List β) :
    merge passes (l.map f) (r.map f) = List.map f <$> (merge passes' l r).reindex f := by
  have h := mergeOnto_map f passes passes' hpasses [] (l.length + r.length) l r
  rw [List.map_nil] at h
  simp [merge, h]

end Merging

theorem mergeFront_map (l r : List β) :
    mergeFront (l.map f) (r.map f) = List.map f <$> (mergeFront l r).reindex f :=
  merge_map f (fun a b => less b a) (fun a b => less b a) (fun _ _ => rfl) l r

theorem mergeBack_map (l r : List β) :
    mergeBack (l.map f) (r.map f) = List.map f <$> (mergeBack l r).reindex f := by
  have h := merge_map f (fun b a => less b a) (fun b a => less b a) (fun _ _ => rfl) r.reverse
    l.reverse
  simp [mergeBack, ← List.map_reverse, h]

theorem mergeInward_map (l r : List β) :
    mergeInward (l.map f) (r.map f) = List.map f <$> (mergeInward l r).reindex f := by
  have h := mergeOnto_map f (fun a b => less b a) (fun a b => less b a) (fun _ _ => rfl) []
    l.length l r
  rw [List.map_nil] at h
  simp [mergeInward, h, mergeBack_map]

theorem mergeRuns_map (l r : List β) :
    mergeRuns (l.map f) (r.map f) = List.map f <$> (mergeRuns l r).reindex f := by
  simp only [mergeRuns, List.length_map, mergeFront_map, mergeBack_map]
  split <;> rfl

/-! ## Runs -/

theorem ascent_map (b : β) (l : List β) :
    ascent (f b) (l.map f) = (fun x => (x.1.map f, x.2.map f)) <$> (ascent b l).reindex f := by
  induction l generalizing b with
  | nil => rfl
  | cons c l ih =>
    simp only [List.map_cons, ascent, ih, Inquiry.reindex_bind, Inquiry.reindex_less, map_bind]
    refine bind_congr fun yes => ?_
    cases yes <;> simp

theorem descent_map (b : β) (l : List β) :
    descent (f b) (l.map f) = (fun x => (x.1.map f, x.2.map f)) <$> (descent b l).reindex f := by
  induction l generalizing b with
  | nil => rfl
  | cons c l ih =>
    simp only [List.map_cons, descent, ih, Inquiry.reindex_bind, Inquiry.reindex_less, map_bind]
    refine bind_congr fun yes => ?_
    cases yes <;> simp

theorem leadingRun_map (l : List β) :
    leadingRun (l.map f) = (fun x => (x.1.map f, x.2.map f)) <$> (leadingRun l).reindex f := by
  match l with
  | [] | [_] => rfl
  | a :: b :: l =>
    simp only [List.map_cons, leadingRun, ascent_map, descent_map, Inquiry.reindex_bind,
      Inquiry.reindex_less, map_bind]
    refine bind_congr fun yes => ?_
    cases yes <;> simp

/-! ## Blocks -/

theorem ordered_map (a b : β) :
    ordered (f a) (f b) = Prod.map f f <$> (ordered a b).reindex f := by
  simp only [ordered, Inquiry.reindex_bind, Inquiry.reindex_less, map_bind]
  refine bind_congr fun yes => ?_
  cases yes <;> rfl

theorem mergePairs_map (a b c d : β) :
    mergePairs (f a) (f b) (f c) (f d) = List.map f <$> (mergePairs a b c d).reindex f := by
  simp only [mergePairs, Inquiry.reindex_bind, Inquiry.reindex_less, map_bind]
  refine bind_congr fun left => bind_congr fun right => ?_
  cases left <;> cases right <;> simp [ordered_map]

theorem sortFour_map (a b c d : β) :
    sortFour (f a) (f b) (f c) (f d) = List.map f <$> (sortFour a b c d).reindex f := by
  simp [sortFour, ordered_map, mergePairs_map]

theorem sortStart_map (l : List β) :
    sortStart (l.map f) = List.map f <$> (sortStart l).reindex f := by
  have hother := insertAll_map f [] l
  match l with
  | [] | [_] | [_, _] | [_, _, _] => exact hother
  | [a, b, c, d] => exact sortFour_map f a b c d
  | [_, _, _, _, _] | [_, _, _, _, _, _] | [_, _, _, _, _, _, _] => exact hother
  | [_, _, _, _, _, _, _, _] =>
    simp [sortStart, sortFour_map, mergeInward_map]
  | _ :: _ :: _ :: _ :: _ :: _ :: _ :: _ :: _ :: _ => exact hother

theorem sortHalf_map (n : Nat) (l : List β) :
    sortHalf n (l.map f) = List.map f <$> (sortHalf n l).reindex f := by
  simp [sortHalf, ← List.map_take, ← List.map_drop, sortStart_map, insertAll_map]

theorem sortBlock_map (l : List β) :
    sortBlock (l.map f) = List.map f <$> (sortBlock l).reindex f := by
  simp [sortBlock, ← List.map_take, ← List.map_drop, sortHalf_map, mergeInward_map]

/-! ## Sorting -/

theorem sortPiece_map (least : Nat) (l : List β) :
    sortPiece least (l.map f) = List.map f <$> (sortPiece least l).reindex f := by
  simp only [sortPiece, leadingRun_map, sortBlock_map, bind_map_left, Inquiry.reindex_bind, map_bind,
    List.length_map, List.isEmpty_map]
  refine bind_congr fun cut => ?_
  split <;> rfl

theorem sortPieces_map (l : List β) :
    sortPieces (l.map f) = List.map f <$> (sortPieces l).reindex f := by
  simp only [sortPieces, leadingRun_map, bind_map_left, Inquiry.reindex_bind, map_bind,
    List.length_map, ← List.map_take, ← List.map_drop, sortPiece_map, sortBlock_map]
  refine bind_congr fun cut => ?_
  split <;> simp [mergeRuns_map]

theorem sortHalves_map (l : List β) :
    sortHalves (l.map f) = List.map f <$> (sortHalves l).reindex f := by
  induction l using sortHalves.induct with
  | case1 l h =>
    rw [sortHalves, sortHalves, if_pos h, if_pos (by simpa using h)]
    rfl
  | case2 l h half ihl ihr =>
    rw [sortHalves, sortHalves, if_neg h, if_neg (by simpa using h)]
    simp [← List.map_take, ← List.map_drop, ihl, ihr, half, mergeFront_map]

theorem sort_map (l : List β) : sort (l.map f) = List.map f <$> (sort l).reindex f := by
  simp only [sort, List.length_map, sortPieces_map, sortHalves_map]
  split
  · exact insertAll_map f [] l
  · split <;> rfl

/-! ## The items of a list -/

variable {lt : α → α → Bool} {l : List α}

/-- **A list is sorted by a relation that orders its items**, whatever the relation does to
others. -/
theorem sorted_sort_of_forall {P : α → Prop}
    (trans : ∀ a b c, P a → P b → P c →
      notAfter lt a b → notAfter lt b c → notAfter lt a c)
    (total : ∀ a b, P a → P b → notAfter lt a b || notAfter lt b a)
    (hl : ∀ a ∈ l, P a) : Sorted lt ((sort l).answered lt) := by
  obtain ⟨m, rfl⟩ : ∃ m : List { a // P a }, m.map Subtype.val = l :=
    ⟨l.attachWith P hl, List.attachWith_map_subtype_val ..⟩
  rw [sort_map, Inquiry.answered_map, Inquiry.answered_reindex, Sorted, List.pairwise_map]
  exact @sorted_sort { a // P a } (fun a b => lt a b) (fun a b c => trans a b c a.2 b.2 c.2)
    (fun a b => total a b a.2 b.2) m

/-- Sorting asks about items of the list only. -/
theorem mem_of_asked_sort {x : α × α} (hx : x ∈ (sort l).asked lt) : x.1 ∈ l ∧ x.2 ∈ l := by
  have hmap : (l.attach.map Subtype.val) = l := List.attach_map_subtype_val l
  rw [← hmap, sort_map, Inquiry.asked_map, Inquiry.asked_reindex] at hx
  obtain ⟨⟨a, b⟩, -, rfl⟩ := List.mem_map.1 hx
  exact ⟨a.2, b.2⟩

end PathQuery.Sorting
