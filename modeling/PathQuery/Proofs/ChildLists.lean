import PathQuery.Proofs.Addresses

/-!
# Children seen in part

Children are listed in the same way whatever is known of a pointer, as long as that says what the
pointer shows: its whole chain, say, or only its value.

* names: `Store.View`, `Store.View.below`.
* **`toOption_childrenUpTo`**: what is seen of the children is what is listed below what is seen of
  the pointer.
-/

namespace PathQuery

namespace Store

theorem mem_of_mapM {α β : Type} {f : α → Option β} {as : List α} {bs : List β} {b : β}
    (h : as.mapM f = some bs) (hb : b ∈ bs) : ∃ a ∈ as, f a = some b := by
  induction as generalizing bs with
  | nil =>
    obtain rfl : [] = bs := Option.some.inj h
    simp at hb
  | cons a as ih =>
    rw [List.mapM_cons] at h
    obtain ⟨b', hb', h⟩ := Option.bind_eq_some_iff.1 h
    obtain ⟨bs', hbs', h⟩ := Option.bind_eq_some_iff.1 h
    obtain rfl := Option.some.inj h
    rcases List.mem_cons.1 hb with rfl | hb
    · exact ⟨a, List.mem_cons_self .., hb'⟩
    · obtain ⟨a', ha', hfa⟩ := ih hbs' hb
      exact ⟨a', List.mem_cons_of_mem _ ha', hfa⟩

/-- A way to see pointers as `α` and their children as `β`. -/
structure View (α β : Type) where
  /-- The value at the end of a pointer. -/
  shown? (s : Store) (a : α) : Option Value
  /-- The pointer to an item of the list at the end. -/
  item (s : Store) (a : α) (list i : Nat) : α
  /-- The child at a node. -/
  child (a : α) (node : Node) : β

namespace View

variable {α β : Type} (view : View α β) (s : Store)

/-- What is below a pointer, that of a list's items taken from `inner`. -/
def belowWith (inner : α → Option (List β)) (a : α) : Option (List β) := do
  match ← view.shown? s a with
  | .list l =>
    let items := (List.range (s.lists.get l).length).map (view.item s a l)
    pure (← items.mapM inner).flatten
  | v => pure ((v.holder?.map s.childNodes).getD [] |>.map (view.child a))

/-- What is below a pointer, through at most `n` lists that are items of lists. -/
def below : Nat → α → Option (List β)
  | 0 => view.belowWith s fun _ => some []
  | n + 1 => view.belowWith s (below n)

variable {s} {view}

/-- What is below a pointer stands at a slot of an object. -/
theorem exists_child_of_mem_with {inner : α → Option (List β)} {a : α} {bs : List β} {b : β}
    (hinner : ∀ {a bs b}, inner a = some bs → b ∈ bs →
      ∃ a' h, ∃ node ∈ s.childNodes h, b = view.child a' node)
    (h : view.belowWith s inner a = some bs) (hb : b ∈ bs) :
    ∃ a' h, ∃ node ∈ s.childNodes h, b = view.child a' node := by
  obtain ⟨v, hend, h⟩ := Option.bind_eq_some_iff.1 h
  have hslots (hbs : ((v.holder?.map s.childNodes).getD []).map (view.child a) = bs) :
      ∃ a' h, ∃ node ∈ s.childNodes h, b = view.child a' node := by
    subst hbs
    obtain ⟨node, hnode, rfl⟩ := List.mem_map.1 hb
    cases hh : v.holder? with
    | none => simp [hh] at hnode
    | some h => exact ⟨a, h, node, by simpa [hh] using hnode, rfl⟩
  cases v with
  | list l =>
    obtain ⟨bss, hbss, h⟩ := Option.bind_eq_some_iff.1 h
    obtain rfl := Option.some.inj h
    obtain ⟨bs, hbs, hb⟩ := List.mem_flatten.1 hb
    obtain ⟨a', -, hinner'⟩ := mem_of_mapM hbss hbs
    exact hinner hinner' hb
  | _ => exact hslots (Option.some.inj h)

theorem exists_child_of_mem {n : Nat} {a : α} {bs : List β} {b : β}
    (h : view.below s n a = some bs) (hb : b ∈ bs) :
    ∃ a' h, ∃ node ∈ s.childNodes h, b = view.child a' node := by
  induction n generalizing a bs b with
  | zero =>
    refine exists_child_of_mem_with (fun h hb => ?_) h hb
    obtain rfl := Option.some.inj h
    simp at hb
  | succ n ih => exact exists_child_of_mem_with ih h hb

/-- A pointer is seen as this, and so are its items. -/
structure Shows (view : View α β) (s t : Store) (P : Pointer → Prop) (f : Pointer → α)
    (g : Pointer → β) : Prop where
  plain {p : Pointer} (hp : P p) : p.node.IsPlain
  shown? {p : Pointer} (hp : P p) : view.shown? s (f p) = p.node.end? s
  item {p : Pointer} {l i : Nat} (hp : P p) (hend : p.node.end? s = some (.list l))
    (hi : i < (s.lists.get l).length) :
    P (p.item t l p.node.name? i) ∧ f (p.item t l p.node.name? i) = view.item s (f p) l i
  child {p : Pointer} (hp : P p) (o : Occasion) (node : Node) :
    g (p.child o node) = view.child (f p) node

end View

theorem toOption_mapM {α β γ δ : Type} {f : α → Except PathError (List β)}
    {g : γ → Option (List δ)} {c : α → γ} {d : β → δ} {as : List α}
    (h : ∀ a ∈ as, (f a).toOption.map (List.map d) = g (c a)) :
    (as.mapM f).toOption.map (List.map (List.map d)) = (as.map c).mapM g := by
  induction as with
  | nil => rfl
  | cons a as ih =>
    rw [List.mapM_cons, List.map_cons, List.mapM_cons, ← h a (List.mem_cons_self ..),
      ← ih fun b hb => h b (List.mem_cons_of_mem _ hb)]
    cases f a with
    | error e => rfl
    | ok bs => cases as.mapM f <;> rfl

end Store

namespace Pointer

variable {α β : Type} {view : Store.View α β} {s t : Store} {P : Pointer → Prop}
variable {f : Pointer → α} {g : Pointer → β} {p : Pointer}

theorem toOption_value (hp : p.node.IsPlain) : (p.value s .standard).toOption = p.node.end? s := by
  ext v
  rw [← value_eq_ok_iff hp]
  cases p.value s .standard <;> simp [Except.toOption]

theorem toOption_childrenWith {inner : Pointer → Except PathError (List Pointer)}
    {inner' : α → Option (List β)} (ht : s.SameGraph t) (hview : view.Shows s t P f g) (hp : P p)
    (hinner : ∀ q, P q → (inner q).toOption.map (List.map g) = inner' (f q)) :
    (p.childrenWith t .standard inner).toOption.map (List.map g) =
      view.belowWith s inner' (f p) := by
  rw [childrenWith_eq (hview.plain hp), Store.View.belowWith, hview.shown? hp, ← ht.end?,
    ← toOption_value (hview.plain hp)]
  cases hv : p.value t .standard with
  | error e => rfl
  | ok v =>
    have hslots : t.childNodes = s.childNodes := by
      funext h
      simp only [Store.childNodes, ht.slots, ht.slotNodes]
    cases v with
    | list l =>
      have hend : p.node.end? s = some (.list l) := by
        rw [← ht.end?]
        exact (value_eq_ok_iff (hview.plain hp)).1 hv
      let items := (List.range (t.lists.get l).length).map (p.item t l p.node.name?)
      have hitem {i : Nat} (hi : i ∈ List.range (t.lists.get l).length) :=
        hview.item hp hend (i := i) (by simpa [ht.lists] using hi)
      have hitems : items.map f =
          (List.range (s.lists.get l).length).map (view.item s (f p) l) := by
        rw [List.map_map, ← ht.lists]
        exact List.map_congr_left fun i hi => (hitem hi).2
      have hinner' : ∀ q ∈ items, (inner q).toOption.map (List.map g) = inner' (f q) := by
        intro q hq
        obtain ⟨i, hi, rfl⟩ := List.mem_map.1 hq
        exact hinner _ (hitem hi).1
      have hmapM := Store.toOption_mapM hinner'
      rw [hitems] at hmapM
      simp only [Except.ok_bind, Except.toOption, Option.bind_eq_bind, Option.bind_some, ← hmapM]
      show Option.map _ (Except.toOption (do pure (← items.mapM inner).flatten)) = _
      cases items.mapM inner with
      | error e => rfl
      | ok css => simp [Except.toOption, List.map_flatten]
    | _ => simp [Except.toOption, hslots, Function.comp_def, hview.child hp]

/-- **What is seen of the children is below what is seen of the pointer.** -/
theorem toOption_childrenUpTo (ht : s.SameGraph t) (hview : view.Shows s t P f g) (n : Nat)
    (hp : P p) :
    (p.childrenUpTo t .standard n).toOption.map (List.map g) = view.below s n (f p) := by
  induction n generalizing p with
  | zero => exact toOption_childrenWith ht hview hp fun _ _ => rfl
  | succ n ih => exact toOption_childrenWith ht hview hp fun _ hq => ih hq

end Pointer

end PathQuery
