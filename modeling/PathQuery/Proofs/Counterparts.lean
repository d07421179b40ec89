import PathQuery.Proofs.Independence
import PathQuery.Proofs.SortedMembers

/-!
# Counterparts

Pointers of one store that stand for the pointers of another. If every way to look at a pointer
shows the same of its counterpart, and every move from it leads to counterparts, then no axis and no
conversion tells the two stores apart.

* names: `Except.Alike`, `Search.Alike`, `Answer.Alike`; `Store.Mirrors`.
* Relations of results are lifted part by part, with one law for each way to put computations
  together.
* **`along_alike`**, `sortUnique_alike`, `toText_alike`: what is found and computed in one store has
  its counterpart in the other, and what fails, fails alike.
-/

namespace PathQuery

/-! ## Results -/

namespace Except

variable {α β γ δ : Type} {P : α → β → Prop} {Q : γ → δ → Prop}

/-- Both computations give related results, or both fail with one error. -/
def Alike (P : α → β → Prop) : Except PathError α → Except PathError β → Prop
  | .ok a, .ok b => P a b
  | .error e, .error e' => e = e'
  | _, _ => False

variable {x : Except PathError α} {y : Except PathError β}

theorem Alike.bind {f : α → Except PathError γ} {g : β → Except PathError δ} (h : Alike P x y)
    (hf : ∀ a b, P a b → Alike Q (f a) (g b)) : Alike Q (x >>= f) (y >>= g) := by
  cases x <;> cases y
  · exact h
  · exact h.elim
  · exact h.elim
  · exact hf _ _ h

theorem Alike.map {f : α → γ} {g : β → δ} (h : Alike P x y) (hf : ∀ a b, P a b → Q (f a) (g b)) :
    Alike Q (x.map f) (y.map g) := by
  cases x <;> cases y
  · exact h
  · exact h.elim
  · exact h.elim
  · exact hf _ _ h

theorem Alike.imp {Q : α → β → Prop} (h : Alike P x y) (hPQ : ∀ a b, P a b → Q a b) :
    Alike Q x y := by
  cases x <;> cases y
  · exact h
  · exact h.elim
  · exact h.elim
  · exact hPQ _ _ h

theorem alike_ok_iff {a : α} : Alike P (.ok a) y ↔ ∃ b, y = .ok b ∧ P a b := by
  cases y <;> simp [Alike]

theorem alike_error_iff {e : PathError} : Alike P (.error e) y ↔ y = .error e := by
  cases y <;> simp [Alike, eq_comm]

theorem Alike.mapM {f : α → Except PathError γ} {g : β → Except PathError δ} {as : List α}
    {bs : List β} (h : List.Forall₂ P as bs) (hf : ∀ a b, P a b → Alike Q (f a) (g b)) :
    Alike (List.Forall₂ Q) (as.mapM f) (bs.mapM g) := by
  induction h with
  | nil => exact .nil
  | cons hab _ ih =>
    rw [List.mapM_cons, List.mapM_cons]
    exact (hf _ _ hab).bind fun _ _ hc => ih.bind fun _ _ hcs => .cons hc hcs

theorem Alike.filterMapM {f : α → Except PathError (Option γ)} {g : β → Except PathError (Option δ)}
    {as : List α} {bs : List β} (h : List.Forall₂ P as bs)
    (hf : ∀ a b, P a b → Alike (Option.Rel Q) (f a) (g b)) :
    Alike (List.Forall₂ Q) (as.filterMapM f) (bs.filterMapM g) := by
  induction h with
  | nil => exact .nil
  | cons hab _ ih =>
    rw [List.filterMapM_cons, List.filterMapM_cons]
    refine (hf _ _ hab).bind fun c d hcd => ?_
    cases hcd with
    | none => exact ih
    | some hcd => exact ih.bind fun _ _ hcs => .cons hcd hcs

end Except

/-! ## Lists -/

section Lists

variable {α β : Type} {P : α → β → Prop} {as : List α} {bs : List β}

theorem forall₂_zipIdx (h : List.Forall₂ P as bs) (k : Nat) :
    List.Forall₂ (fun x y => P x.1 y.1 ∧ x.2 = y.2) (as.zipIdx k) (bs.zipIdx k) := by
  induction h generalizing k with
  | nil => exact .nil
  | cons hab _ ih => exact .cons ⟨hab, rfl⟩ (ih _)

theorem forall₂_head? (h : List.Forall₂ P as bs) : Option.Rel P as.head? bs.head? := by
  cases h with
  | nil => exact .none
  | cons hab _ => exact .some hab

theorem forall₂_isEmpty (h : List.Forall₂ P as bs) : bs.isEmpty = as.isEmpty := by
  cases h <;> rfl

theorem forall₂_find? {f : α → Bool} {g : β → Bool} (h : List.Forall₂ P as bs)
    (hf : ∀ a b, P a b → g b = f a) : Option.Rel P (as.find? f) (bs.find? g) := by
  induction h with
  | nil => exact .none
  | @cons a b _ _ hab _ ih =>
    rw [List.find?_cons, List.find?_cons, hf a b hab]
    cases f a
    · exact ih
    · exact .some hab

theorem forall₂_span {f : α → Bool} {g : β → Bool} (h : List.Forall₂ P as bs)
    (hf : ∀ a b, P a b → g b = f a) :
    List.Forall₂ P (as.span f).1 (bs.span g).1 ∧ List.Forall₂ P (as.span f).2 (bs.span g).2 := by
  simp only [List.span_eq_takeWhile_dropWhile]
  induction h with
  | nil => exact ⟨.nil, .nil⟩
  | @cons a b _ _ hab hrest ih =>
    rw [List.takeWhile_cons, List.takeWhile_cons, List.dropWhile_cons, List.dropWhile_cons,
      hf a b hab]
    cases f a
    · exact ⟨.nil, .cons hab hrest⟩
    · exact ⟨.cons hab ih.1, ih.2⟩

theorem forall₂_any {f : α → Bool} {g : β → Bool} (h : List.Forall₂ P as bs)
    (hf : ∀ a b, P a b → g b = f a) : bs.any g = as.any f := by
  induction h with
  | nil => rfl
  | cons hab _ ih => rw [List.any_cons, List.any_cons, hf _ _ hab, ih]

/-- A relation of the members may make use of where they are. -/
theorem forall₂_mem {Q : α → β → Prop} (h : List.Forall₂ P as bs)
    (hQ : ∀ a ∈ as, ∀ b ∈ bs, P a b → Q a b) : List.Forall₂ Q as bs := by
  induction h with
  | nil => exact .nil
  | cons hab _ ih =>
    exact .cons (hQ _ (List.mem_cons_self ..) _ (List.mem_cons_self ..) hab)
      (ih fun a ha b hb => hQ a (List.mem_cons_of_mem _ ha) b (List.mem_cons_of_mem _ hb))

theorem exists_mem_of_forall₂ {b : β} (h : List.Forall₂ P as bs) (hb : b ∈ bs) :
    ∃ a ∈ as, P a b := by
  induction h with
  | nil => cases hb
  | cons hab _ ih =>
    rcases List.mem_cons.1 hb with rfl | hb
    · exact ⟨_, List.mem_cons_self .., hab⟩
    · obtain ⟨a, ha, hab⟩ := ih hb
      exact ⟨a, List.mem_cons_of_mem _ ha, hab⟩

theorem map_eq_of_forall₂ {γ : Type} {f : α → γ} {g : β → γ}
    (h : List.Forall₂ (fun a b => g b = f a) as bs) : bs.map g = as.map f := by
  induction h with
  | nil => rfl
  | cons hab _ ih => rw [List.map_cons, List.map_cons, hab, ih]

theorem flatMap_eq_of_forall₂ {γ δ : Type} {f : α → List γ} {g : β → List δ} {φ : γ → δ}
    (h : List.Forall₂ P as bs) (hf : ∀ a b, P a b → g b = (f a).map φ) :
    bs.flatMap g = (as.flatMap f).map φ := by
  induction h with
  | nil => rfl
  | cons hab _ ih => rw [List.flatMap_cons, List.flatMap_cons, List.map_append, hf _ _ hab, ih]

/-- Lists whose members are related are sorted alike by comparisons that agree on them. -/
theorem Sorting.sort_alike {answer : α → α → Except PathError Bool}
    {answer' : β → β → Except PathError Bool}
    (hanswer : ∀ a b a' b', P a b → P a' b' → answer' b b' = answer a a')
    (h : List.Forall₂ P as bs) :
    Except.Alike (List.Forall₂ P) ((sort as).tried answer) ((sort bs).tried answer') := by
  obtain ⟨pairs, rfl, rfl⟩ : ∃ pairs : List { x : α × β // P x.1 x.2 },
      pairs.map (fun x => x.1.1) = as ∧ pairs.map (fun x => x.1.2) = bs := by
    induction h with
    | nil => exact ⟨[], rfl, rfl⟩
    | cons hab _ ih =>
      obtain ⟨pairs, rfl, rfl⟩ := ih
      exact ⟨⟨(_, _), hab⟩ :: pairs, rfl, rfl⟩
  have hsame : (fun x y : { x : α × β // P x.1 x.2 } => answer' x.1.2 y.1.2) =
      fun x y => answer x.1.1 y.1.1 := by
    funext x y
    exact hanswer _ _ _ _ x.2 y.2
  rw [sort_map, sort_map, Inquiry.tried_map, Inquiry.tried_map, Inquiry.tried_reindex,
    Inquiry.tried_reindex, hsame]
  cases (sort pairs).tried fun x y => answer x.1.1 y.1.1 with
  | error e => exact rfl
  | ok sorted =>
    refine List.forall₂_map_left_iff.2 (List.forall₂_map_right_iff.2 (List.forall₂_same.2 ?_))
    exact fun x _ => x.2

end Lists

/-! ## Searches -/

namespace Nodes

/-- The sequences consist of counterparts, and break off alike. -/
def Alike (R : Pointer → Pointer → Prop) (a b : Nodes) : Prop :=
  List.Forall₂ R a.items b.items ∧ a.failure = b.failure

variable {R : Pointer → Pointer → Prop} {a b : Nodes}

theorem Alike.all (h : a.Alike R b) : Except.Alike (List.Forall₂ R) a.all b.all := by
  obtain ⟨as, _ | e⟩ := a <;> obtain ⟨bs, _ | e'⟩ := b
  · exact h.1
  · cases h.2
  · cases h.2
  · exact Option.some.inj h.2

end Nodes

namespace Search

variable {R : Pointer → Pointer → Prop}

/-- The searches find counterparts, one after another, and end alike. -/
inductive Alike (R : Pointer → Pointer → Prop) : Search → Search → Prop
  | ended : Alike R ended ended
  | broken (e : PathError) : Alike R (broken e) (broken e)
  | found {p q : Pointer} {more more' : Unit → Search} (hp : R p q)
    (hmore : Alike R (more ()) (more' ())) : Alike R (found p more) (found q more')

variable {a b : Search}

theorem alike_ofList {ps qs : List Pointer} (h : List.Forall₂ R ps qs) :
    Alike R (ofList ps) (ofList qs) := by
  induction h with
  | nil => exact .ended
  | cons hp _ ih => exact .found hp ih

theorem alike_ofExcept {x y : Except PathError Search} (h : Except.Alike (Alike R) x y) :
    Alike R (ofExcept x) (ofExcept y) := by
  cases x <;> cases y
  · obtain rfl := h
    exact .broken _
  · exact h.elim
  · exact h.elim
  · exact h

theorem Alike.nodes (h : a.Alike R b) : a.nodes.Alike R b.nodes := by
  induction h with
  | ended => exact ⟨.nil, rfl⟩
  | broken e => exact ⟨.nil, rfl⟩
  | found hp _ ih =>
    rw [nodes_found, nodes_found]
    exact ⟨.cons hp ih.1, ih.2⟩

theorem Alike.all (h : a.Alike R b) : Except.Alike (List.Forall₂ R) a.all b.all := h.nodes.all

theorem Alike.andThen {rest rest' : Unit → Search} (h : a.Alike R b)
    (hrest : (rest ()).Alike R (rest' ())) : (a.andThen rest).Alike R (b.andThen rest') := by
  induction h with
  | ended => exact hrest
  | broken e => exact .broken e
  | found hp _ ih => exact .found hp ih

theorem Alike.filter {test test' : Pointer → Bool} (h : a.Alike R b)
    (htest : ∀ p q, R p q → test' q = test p) : (a.filter test).Alike R (b.filter test') := by
  induction h with
  | ended => exact .ended
  | broken e => exact .broken e
  | @found p q _ _ hp _ ih =>
    rw [Search.filter, Search.filter, htest p q hp]
    split
    · exact .found hp ih
    · exact ih

theorem Alike.gather {f g : Pointer → Search} (h : a.Alike R b)
    (hf : ∀ p q, R p q → (f p).Alike R (g q)) : (a.gather f).Alike R (b.gather g) := by
  induction h with
  | ended => exact .ended
  | broken e => exact .broken e
  | @found p q _ _ hp _ ih =>
    rw [Search.gather, Search.gather]
    have hfound := hf p q hp
    revert hfound
    generalize f p = x
    generalize g q = y
    rintro (_ | e | ⟨hr, hrest⟩)
    · exact ih
    · exact .broken e
    · exact .found hr (hrest.andThen ih)

theorem Alike.distinctFrom {s t : Store} (h : a.Alike R b)
    (hpath : ∀ p q, R p q → q.path t = p.path s) (seen : TextSet) :
    (a.distinctFrom s seen).Alike R (b.distinctFrom t seen) := by
  induction h generalizing seen with
  | ended => exact .ended
  | broken e => exact .broken e
  | @found p q _ _ hp _ ih =>
    rw [Search.distinctFrom, Search.distinctFrom, hpath p q hp]
    split
    · exact ih seen
    · exact .found hp (ih _)

/-- Searches from pointers that each go on with the next. -/
theorem alike_each {P : Pointer → Pointer → Prop} {f g : Pointer → (Unit → Search) → Search}
    {ps qs : List Pointer} {rest rest' : Unit → Search} (h : List.Forall₂ P ps qs)
    (hf : ∀ p q rest rest', P p q → (rest ()).Alike R (rest' ()) →
      (f p rest).Alike R (g q rest'))
    (hrest : (rest ()).Alike R (rest' ())) : (each f ps rest).Alike R (each g qs rest') := by
  induction h with
  | nil => exact hrest
  | cons hp _ ih => exact hf _ _ _ _ hp ih

end Search

/-! ## Answers -/

/-- The answers are one scalar, consist of counterparts, or are objects that `O` relates. -/
inductive Answer.Alike (R : Pointer → Pointer → Prop) (O : Value → Value → Prop) :
    Answer → Answer → Prop
  | nodes {ps qs : List Pointer} (h : List.Forall₂ R ps qs) : Alike R O (.nodes ps) (.nodes qs)
  | text (t : String) : Alike R O (.text t) (.text t)
  | number (x : Float) : Alike R O (.number x) (.number x)
  | boolean (b : Bool) : Alike R O (.boolean b) (.boolean b)
  | object {v w : Value} (h : O v w) : Alike R O (.object v) (.object w)

theorem Answer.Alike.items {R : Pointer → Pointer → Prop} {O : Value → Value → Prop} {a b : Answer}
    (h : a.Alike R O b) : List.Forall₂ R a.items b.items := by
  cases h with
  | nodes hps => exact hps
  | _ => exact .nil

/-! ## Counterparts -/

/-- Every pointer of the first store looks like its counterparts in the second but for its language,
moves lead from counterparts to counterparts, and their values `V` convert alike. So do the objects
`O` that a function may answer. -/
structure Store.Mirrors (R : Pointer → Pointer → Prop) (V O : Value → Value → Prop) (r : Registry)
    (s t : Store) : Prop where
  name? {p q} (h : R p q) : q.node.name? = p.node.name?
  isAttribute {p q} (h : R p q) : q.node.isAttribute = p.node.isAttribute
  path {p q} (h : R p q) : q.path t = p.path s
  rootPath {p q} (h : R p q) : q.rootPath t = p.rootPath s
  passes {p q} (h : R p q) (test : NodeTest) : q.passes t test = p.passes s test
  ownUri? {p q} (h : R p q) : q.ownUri? t = p.ownUri? s
  samePosition {p q p' q'} (h : R p q) (h' : R p' q') :
    q.samePosition t q' = p.samePosition s p'
  sameRoot {p q p' q'} (h : R p q) (h' : R p' q') : q.sameRoot t q' = p.sameRoot s p'
  order {p q p' q'} (h : R p q) (h' : R p' q') : q.order t q' = p.order s p'
  parent? {p q} (h : R p q) : Option.Rel R p.parent? q.parent?
  elements {p q} (h : R p q) : List.Forall₂ R (p.elements s) (q.elements t)
  children {p q} (h : R p q) : Except.Alike (List.Forall₂ R) (p.children s r) (q.children t r)
  attributes {p q} (h : R p q) :
    Except.Alike (List.Forall₂ R) (p.attributes s r) (q.attributes t r)
  namespaces {p q} (h : R p q) :
    Except.Alike (List.Forall₂ R) (p.namespaces s r) (q.namespaces t r)
  descendants {p q} (h : R p q) :
    Except.Alike (Search.Alike R) (p.descendants s r) (q.descendants t r)
  value {p q} (h : R p q) : Except.Alike V (p.value s r) (q.value t r)
  /-- The root of a graph that is a scalar. -/
  scalarRoot {v} (h : v.isScalar = true) (locale : Locale) :
    Except.Alike R (r.root s v locale) (r.root t v locale)
  /-- The root of a graph that is the object of an answer. -/
  objectRoot {v w} (h : O v w) (locale : Locale) :
    Except.Alike R (r.root s v locale) (r.root t w locale)
  object {v w} (h : O v w) : V v w
  shown {v w} (h : O v w) : t.shown w = s.shown v
  /-- A scalar has itself for its counterpart, -/
  ofScalar {v} (h : v.isScalar = true) : V v v
  /-- and nothing else. -/
  scalar {v w} (h : V v w) (hvw : v.isScalar = true ∨ w.isScalar = true) : w = v
  atom {v w} (h : V v w) : V (s.atom v) (t.atom w)
  toBool {v w} (h : V v w) : t.toBool w = s.toBool v
  toNumber {v w} (h : V v w) : t.toNumber w = s.toNumber v
  toText {v w} (h : V v w) : t.toText w = s.toText v

namespace Store.Mirrors

variable {R : Pointer → Pointer → Prop} {V O : Value → Value → Prop} {r : Registry} {s t : Store}
variable (h : Store.Mirrors R V O r s t) {p q : Pointer}

include h

open PathQuery.Except (Alike)

/-! ## Order -/

theorem uniqueFrom_alike {ps qs : List Pointer} (hps : List.Forall₂ R ps qs) (seen : TextSet) :
    List.Forall₂ R (Pointer.uniqueFrom s seen ps) (Pointer.uniqueFrom t seen qs) := by
  induction hps generalizing seen with
  | nil => exact .nil
  | cons hp _ ih =>
    rw [Pointer.uniqueFrom, Pointer.uniqueFrom, h.path hp]
    split
    · exact ih seen
    · exact .cons hp (ih _)

theorem comesBefore_eq {p' q' : Pointer} (hpq : R p q) (hpq' : R p' q') :
    q.comesBefore t q' = p.comesBefore s p' := by
  rw [Pointer.comesBefore, Pointer.comesBefore, Pointer.compare, Pointer.compare,
    h.sameRoot hpq hpq', h.order hpq hpq', h.rootPath hpq, h.rootPath hpq']

theorem sortUnique_alike {ps qs : List Pointer} (hps : List.Forall₂ R ps qs) :
    Alike (List.Forall₂ R) (Pointer.sortUnique s ps) (Pointer.sortUnique t qs) := by
  have hsorted : Alike (List.Forall₂ R) (Pointer.sorted s ps) (Pointer.sorted t qs) :=
    Sorting.sort_alike (fun _ _ _ _ hpq hpq' => h.comesBefore_eq hpq hpq') hps
  exact hsorted.map fun _ _ hus => h.uniqueFrom_alike hus _

/-! ## Axes -/

theorem ancestors_alike (hp : R p q) : List.Forall₂ R p.ancestors q.ancestors := by
  induction hn : p.above.length generalizing p q with
  | zero =>
    have hnone : p.parent? = none := by simp [Pointer.parent?, List.length_eq_zero_iff.1 hn]
    have hparent := h.parent? hp
    rw [hnone] at hparent
    have hnone' : q.parent? = none := by
      cases hq : q.parent? with
      | none => rfl
      | some q' => rw [hq] at hparent; cases hparent
    rw [Pointer.ancestors_eq_nil hnone, Pointer.ancestors_eq_nil hnone']
    exact .nil
  | succ n ih =>
    obtain ⟨v, above, habove⟩ := List.exists_cons_of_length_eq_add_one hn
    have hsome : p.parent? = some { p with visit := v, above } := by
      simp [Pointer.parent?, habove]
    have hparent := h.parent? hp
    rw [hsome] at hparent
    cases hq : q.parent? with
    | none => rw [hq] at hparent; cases hparent
    | some q' =>
      rw [hq] at hparent
      cases hparent with
      | some hup =>
        rw [Pointer.ancestors_eq_cons hsome, Pointer.ancestors_eq_cons hq]
        refine .cons hup (ih hup ?_)
        simpa [habove] using hn

theorem levels_alike (hp : R p q) : List.Forall₂ R (p :: p.ancestors) (q :: q.ancestors) :=
  .cons hp (h.ancestors_alike hp)

theorem siblings_alike (hp : R p q) :
    Alike (fun x y => List.Forall₂ R x.1 y.1 ∧ List.Forall₂ R x.2 y.2) (p.siblings s r)
      (q.siblings t r) := by
  rw [Pointer.siblings, Pointer.siblings, h.isAttribute hp]
  have hparent := h.parent? hp
  revert hparent
  generalize p.parent? = x
  generalize q.parent? = y
  rintro (hup | _)
  · dsimp only
    split
    · exact ⟨.nil, .nil⟩
    · refine (h.children hup).bind fun ps qs hps => ?_
      have hspan := forall₂_span (f := fun x => !x.samePosition s p)
        (g := fun y => !y.samePosition t q) hps fun x y hx => by rw [h.samePosition hx hp]
      exact ⟨hspan.1, List.forall₂_drop 1 hspan.2⟩
  · exact ⟨.nil, .nil⟩

theorem precedingSiblings_alike (hp : R p q) :
    Alike (List.Forall₂ R) (p.precedingSiblings s r) (q.precedingSiblings t r) :=
  (h.siblings_alike hp).map fun _ _ hx => hx.1

theorem followingSiblings_alike (hp : R p q) :
    Alike (List.Forall₂ R) (p.followingSiblings s r) (q.followingSiblings t r) :=
  (h.siblings_alike hp).map fun _ _ hx => hx.2

theorem descendantsOrSelf_alike (hp : R p q) :
    Alike (Search.Alike R) (p.descendantsOrSelf s r) (q.descendantsOrSelf t r) :=
  (h.descendants hp).bind fun _ _ hbelow => .found hp hbelow

theorem following_alike (hp : R p q) :
    Alike (List.Forall₂ R) (p.following s r) (q.following t r) := by
  refine (Alike.mapM (h.levels_alike hp) fun level level' hlevel => ?_).bind fun _ _ hls =>
    List.rel_flatten hls
  refine (h.followingSiblings_alike hlevel).bind fun after after' hafter => ?_
  refine (Alike.mapM hafter fun x y hx => ?_).bind fun _ _ htrees => List.rel_flatten htrees
  exact (h.descendants hx).bind fun _ _ hbelow => hbelow.all.bind fun _ _ hall => .cons hx hall

theorem preceding_alike (hp : R p q) :
    Alike (List.Forall₂ R) (p.preceding s r) (q.preceding t r) := by
  refine (Alike.mapM (h.levels_alike hp) fun level level' hlevel => ?_).bind fun _ _ hls =>
    List.rel_flatten hls
  refine (h.precedingSiblings_alike hlevel).bind fun before before' hbefore => ?_
  refine (Alike.mapM (List.rel_reverse hbefore) fun x y hx => ?_).bind fun _ _ htrees =>
    List.rel_flatten htrees
  exact (h.descendantsOrSelf_alike hx).bind fun _ _ hbelow => hbelow.all.bind fun _ _ hall =>
    List.rel_reverse hall

/-- **Every axis leads from counterparts to counterparts.** -/
theorem along_alike (hp : R p q) (axis : Axis) :
    Alike (Search.Alike R) (p.along s r axis) (q.along t r axis) := by
  have hlist {x y : Except PathError (List Pointer)} (hx : Alike (List.Forall₂ R) x y) :
      Alike (Search.Alike R) (x.map .ofList) (y.map .ofList) :=
    hx.map fun _ _ => Search.alike_ofList
  cases axis with
  | self => exact Search.alike_ofList (h.elements hp)
  | child => exact hlist (h.children hp)
  | «attribute» => exact hlist (h.attributes hp)
  | «namespace» => exact hlist (h.namespaces hp)
  | parent =>
    refine Search.alike_ofList ?_
    have hparent := h.parent? hp
    revert hparent
    generalize p.parent? = x
    generalize q.parent? = y
    rintro (hup | _)
    · exact .cons hup .nil
    · exact .nil
  | ancestor => exact Search.alike_ofList (h.ancestors_alike hp)
  | ancestorOrSelf => exact Search.alike_ofList (h.levels_alike hp)
  | descendant => exact h.descendants hp
  | descendantOrSelf => exact h.descendantsOrSelf_alike hp
  | followingSibling => exact hlist (h.followingSiblings_alike hp)
  | precedingSibling =>
    exact (h.precedingSiblings_alike hp).map fun _ _ hx =>
      Search.alike_ofList (List.rel_reverse hx)
  | following => exact hlist (h.following_alike hp)
  | preceding => exact hlist (h.preceding_alike hp)

/-! ## Answers -/

theorem firstValue_alike {ps qs : List Pointer} (hps : List.Forall₂ R ps qs) :
    Alike (Option.Rel V) (Answer.firstValue s r ps) (Answer.firstValue t r qs) := by
  cases hps with
  | nil => exact .none
  | cons hp _ => exact (h.value hp).map fun _ _ hv => .some hv

theorem values_alike {ps qs : List Pointer} (hps : List.Forall₂ R ps qs) :
    Alike (List.Forall₂ V) (ps.mapM fun p => p.value s r) (qs.mapM fun q => q.value t r) :=
  Alike.mapM hps fun _ _ => h.value

theorem foldl_toNumber {vs ws : List Value} (hvs : List.Forall₂ V vs ws) (x : Float) :
    ws.foldl (fun x w => x + t.toNumber w) x = vs.foldl (fun x v => x + s.toNumber v) x := by
  refine (List.rel_foldl (P := (· = ·)) (R := V) (fun y z hy v w hv => ?_) rfl hvs).symm
  rw [hy, h.toNumber hv]

variable {a a' b b' : Answer}

/-- What is computed from the first value of an answer, if nodes without a first value count the
same. -/
theorem firstValue_bind_alike {α : Type} {ps qs : List Pointer} (hps : List.Forall₂ R ps qs)
    {f g : Value → α} (d : α) (hf : ∀ v w, V v w → g w = f v) :
    Alike (· = ·) (do pure (((← Answer.firstValue s r ps).map f).getD d))
      (do pure (((← Answer.firstValue t r qs).map g).getD d)) := by
  refine (h.firstValue_alike hps).bind fun v w hv => ?_
  cases hv with
  | none => rfl
  | some hv => exact (hf _ _ hv).symm

theorem toBool_alike (ha : a.Alike R O a') : a'.toBool t = a.toBool s := by
  cases ha with
  | nodes hps => exact congrArg Bool.not (forall₂_isEmpty hps)
  | object hv => exact h.toBool (h.object hv)
  | _ => rfl

theorem toNumber_alike (ha : a.Alike R O a') : Alike (· = ·) (a.toNumber s r) (a'.toNumber t r) := by
  cases ha with
  | nodes hps => exact h.firstValue_bind_alike hps _ fun _ _ => h.toNumber
  | object hv => exact (h.toNumber (h.object hv)).symm
  | _ => rfl

theorem toText_alike (ha : a.Alike R O a') : Alike (· = ·) (a.toText s r) (a'.toText t r) := by
  cases ha with
  | nodes hps => exact h.firstValue_bind_alike hps _ fun _ _ => h.toText
  | object hv => exact (h.toText (h.object hv)).symm
  | _ => rfl

end Store.Mirrors

end PathQuery
