import PathQuery.Proofs.Counterparts
import PathQuery.Proofs.Depths
import PathQuery.Proofs.Ends

/-!
# Graphs in another guise

Two stores that hold one graph in different guises: some maps of the one are beans in the other, and
some values are inside cells that the one does not have. Values that stand for one another hold
values that stand for one another, and convert alike.

* names: `Recasting`, `Value.recast`, `Store.Coats`, `Store.Guise`, `Store.Paired`.
* **`Guise.acyclic_right`**: the other guise of a graph without cycles has none either.
  **`Paired.jsonText_eq`**, `Paired.toText_eq`, `Paired.toNumber_eq`: how deep the walks go does not
  matter, for both stores count enough objects.
-/

namespace PathQuery

/-! ## Maps as beans -/

/-- Which beans stand for which maps. -/
structure Recasting where
  bean? : Nat → Option Nat
  injective {m m' b : Nat} (h : bean? m = some b) (h' : bean? m' = some b) : m = m'

/-- Every map stays a map. -/
def Recasting.keep : Recasting := ⟨fun _ => none, nofun⟩

/-- The object with a bean in place of a map. -/
def Holder.recast (as : Recasting) : Holder → Holder
  | .map m => match as.bean? m with
    | some b => .bean b
    | none => .map m
  | h => h

namespace Value

variable {as : Recasting} {v w : Value}

/-- The value with a bean in place of a map. -/
def recast (as : Recasting) : Value → Value
  | .map m => match as.bean? m with
    | some b => .bean b
    | none => .map m
  | v => v

/-- The value is no bean that stands for a map. -/
def IsOld (as : Recasting) (v : Value) : Prop := ∀ m b, as.bean? m = some b → v ≠ .bean b

@[simp] theorem recast_keep (v : Value) : v.recast .keep = v := by cases v <;> rfl

theorem recast_cases (as : Recasting) (v : Value) :
    v.recast as = v ∨ ∃ m b, v = .map m ∧ as.bean? m = some b ∧ v.recast as = .bean b := by
  cases v with
  | map m =>
    rw [recast]
    cases hm : as.bean? m with
    | none => exact .inl rfl
    | some b => exact .inr ⟨m, b, rfl, hm, rfl⟩
  | _ => exact .inl rfl

theorem recast_injective (hv : v.IsOld as) (hw : w.IsOld as) (h : v.recast as = w.recast as) :
    v = w := by
  rcases recast_cases as v with hv' | ⟨m, b, rfl, hm, hv'⟩ <;>
    rcases recast_cases as w with hw' | ⟨m', b', rfl, hm', hw'⟩ <;> rw [hv', hw'] at h
  · exact h
  · exact absurd h (hv m' b' hm')
  · exact absurd h.symm (hw m b hm)
  · obtain rfl := Value.bean.inj h
    rw [as.injective hm hm']

/-- What does not tell a bean from a map stays as it is. -/
theorem apply_recast {β : Type} {f : Value → β} (hf : ∀ m b, f (.bean b) = f (.map m)) (v : Value) :
    f (v.recast as) = f v := by
  rcases recast_cases as v with hv | ⟨m, b, rfl, -, hv⟩ <;> rw [hv]
  exact hf m b

theorem isObject_recast (v : Value) : (v.recast as).isObject = v.isObject :=
  apply_recast (fun _ _ => rfl) v

theorem isScalar_recast (v : Value) : (v.recast as).isScalar = v.isScalar :=
  apply_recast (fun _ _ => rfl) v

theorem isNull_recast (v : Value) : (v.recast as).isNull = v.isNull :=
  apply_recast (fun _ _ => rfl) v

theorem recast_of_not_isObject (h : v.isObject = false) : v.recast as = v := by
  cases v <;> first | rfl | cases h

/-- Only the value itself stands for a value that has no slots. -/
theorem recast_eq_iff (h : w.holder? = none) : v.recast as = w ↔ v = w := by
  rcases recast_cases as v with hv | ⟨m, b, rfl, -, hv⟩ <;> rw [hv]
  constructor
  · rintro rfl
    cases h
  · rintro rfl
    cases h

theorem recast_value (h : Holder) : h.value.recast as = (h.recast as).value := by
  cases h with
  | map m =>
    show Value.recast as (.map m) = _
    rw [recast, Holder.recast]
    cases as.bean? m <;> rfl
  | bean b => rfl

theorem holder?_recast (v : Value) : (v.recast as).holder? = v.holder?.map (Holder.recast as) := by
  cases hh : v.holder? with
  | none =>
    rw [(recast_eq_iff hh).2 rfl, hh]
    rfl
  | some h =>
    rw [Holder.value_of_holder? hh, recast_value, Holder.holder?_value]
    rfl

/-- Identity does not tell old values from what stands for them. -/
theorem same_recast (hv : v.IsOld as) (hw : w.IsOld as) :
    (v.recast as).same (w.recast as) = v.same w := by
  have hsame {v w : Value} (h : v.isScalar = false ∨ w.isScalar = false) :
      v.same w = (v == w) := by
    cases v <;> cases w <;> first | rfl | (rcases h with h | h <;> cases h)
  have heq : (v.recast as == w.recast as) = (v == w) :=
    Bool.eq_iff_iff.2 (by
      rw [beq_iff_eq, beq_iff_eq]
      exact ⟨recast_injective hv hw, congrArg _⟩)
  by_cases h : v.isScalar = false ∨ w.isScalar = false
  · rw [hsame h, hsame (by rwa [isScalar_recast, isScalar_recast]), heq]
  · have hobject {v : Value} (h : ¬ v.isScalar = false) : v.isObject = false := by
      cases v <;> first | rfl | exact absurd rfl h
    rw [not_or] at h
    rw [recast_of_not_isObject (hobject h.1), recast_of_not_isObject (hobject h.2)]

end Value

/-! ## Fresh cells -/

namespace Store

/-- The value is another one inside any number of cells that only the second store has. -/
inductive Coats (s t : Store) (v : Value) : Value → Prop
  | bare : Coats s t v v
  | inCell {c : Nat} (hfresh : s.cells.size ≤ c) (hc : c < t.cells.size)
    (h : Coats s t v (t.cells.get c)) : Coats s t v (.cell c)

/-- The tables have the same names in the same order, with related values. -/
def EntriesMatch (P : Value → Value → Prop) (a b : Table Value) : Prop :=
  List.Forall₂ (fun e e' => e'.1 = e.1 ∧ P e.2 e'.2) a.entries b.entries

/-- The value can be reached, if it is an object. -/
def Within (s : Store) (root v : Value) : Prop := v.isObject = true → s.Reaches root v

/-! ## Guises -/

/-- The second store holds the graph below a value of the first one in another guise. -/
structure Guise (as : Recasting) (s t : Store) (root : Value) : Prop where
  acyclic : s.Acyclic root
  now : t.now = s.now
  foreigns : t.foreigns = s.foreigns
  lists_size : t.lists.size = s.lists.size
  maps_size : t.maps.size = s.maps.size
  beans_size : s.beans.size ≤ t.beans.size
  cells_size : s.cells.size ≤ t.cells.size
  isNew {m b : Nat} (h : as.bean? m = some b) : s.beans.size ≤ b ∧ b < t.beans.size
  items {l : Nat} (h : l < s.lists.size) :
    List.Forall₂ (fun v w => Coats s t (v.recast as) w) (s.lists.get l) (t.lists.get l)
  slots {h : Holder} {o : Place} (ho : h.value.place? = some o) (hhas : s.Has o) :
    EntriesMatch (fun v w => Coats s t (v.recast as) w) (s.slots h) (t.slots (h.recast as))
  cell {c : Nat} (h : c < s.cells.size) : t.cells.get c = (s.cells.get c).recast as
  /-- Chains of cells end alike. -/
  ends {v w : Value} (hv : s.Within root v) (hw : t.Within (root.recast as) w)
    (h : Coats s t (v.recast as) w) :
    t.unwrap w = (s.unwrap v).recast as ∧
      t.endOf (maxIndirections - 1) w =
        (s.endOf (maxIndirections - 1) v).map (Option.map (Value.recast as))

/-- The value of the second store stands for the value of the first one. -/
structure Paired (as : Recasting) (s t : Store) (root v w : Value) : Prop where
  left : s.Within root v
  right : t.Within (root.recast as) w
  coats : Coats s t (v.recast as) w

variable {as : Recasting} {s t : Store} {root v w : Value}

theorem Within.held {u : Value} (h : s.Within root v) (hu : u ∈ s.held v) : s.Within root u :=
  fun _ => (h (isObject_of_mem_held hu)).trans (reaches_of_mem_held hu)

theorem within_root (s : Store) (root : Value) : s.Within root root := fun _ => .refl s root

theorem within_of_not_isObject (h : v.isObject = false) : s.Within root v := fun hv => by
  rw [h] at hv
  cases hv

theorem held_value (s : Store) (h : Holder) :
    s.held h.value = (s.slots h).entries.map Prod.snd := by cases h <;> rfl

theorem Coats.eq_of_not_isObject (h : Coats s t v w) (hw : w.isObject = false) : w = v := by
  cases h with
  | bare => rfl
  | inCell => cases hw

theorem EntriesMatch.keys_eq {P : Value → Value → Prop} {a b : Table Value}
    (h : EntriesMatch P a b) : b.keys = a.keys := by
  rw [EntriesMatch] at h
  rw [Table.keys, Table.keys]
  generalize a.entries = x at h ⊢
  generalize b.entries = y at h ⊢
  induction h with
  | nil => rfl
  | cons he _ ih => rw [List.map_cons, List.map_cons, he.1, ih]

theorem EntriesMatch.get? {P : Value → Value → Prop} {a b : Table Value} (h : EntriesMatch P a b)
    (name : String) : Option.Rel P (a.get? name) (b.get? name) := by
  rw [EntriesMatch] at h
  rw [Table.get?, Table.get?]
  generalize a.entries = x at h ⊢
  generalize b.entries = y at h ⊢
  induction h with
  | nil => exact .none
  | @cons e e' _ _ he _ ih =>
    rw [List.lookup_cons, List.lookup_cons, he.1]
    split
    · exact .some he.2
    · exact ih

/-! ### Stores with one graph -/

section SameGraph

variable {s' t' : Store} (hs : s.SameGraph s') (ht : t.SameGraph t')

include hs

theorem Within.congr (h : s.Within root v) : s'.Within root v :=
  fun hobject => (hs.reaches _ _).2 (h hobject)

include ht

theorem Coats.congr (h : Coats s t v w) : Coats s' t' v w := by
  obtain ⟨_, _, rfl⟩ := hs
  obtain ⟨_, _, rfl⟩ := ht
  induction h with
  | bare => exact .bare
  | inCell hfresh hc _ ih => exact .inCell hfresh hc ih

theorem Guise.congr (g : Guise as s t root) (hnow : t'.now = s'.now) : Guise as s' t' root where
  acyclic := g.acyclic.congr hs
  now := hnow
  foreigns := by
    obtain ⟨_, _, rfl⟩ := hs
    obtain ⟨_, _, rfl⟩ := ht
    exact g.foreigns
  lists_size := by rw [ht.lists, hs.lists, g.lists_size]
  maps_size := by
    obtain ⟨_, _, rfl⟩ := hs
    obtain ⟨_, _, rfl⟩ := ht
    exact g.maps_size
  beans_size := by
    rw [ht.beans, hs.beans]
    exact g.beans_size
  cells_size := by
    rw [ht.cells, hs.cells]
    exact g.cells_size
  isNew h := by
    rw [ht.beans, hs.beans]
    exact g.isNew h
  items h := by
    rw [hs.lists] at h ⊢
    rw [ht.lists]
    exact (g.items h).imp fun _ _ => Coats.congr hs ht
  slots ho hhas := by
    rw [hs.slots, ht.slots]
    exact (g.slots ho ((hs.has_iff _).1 hhas)).imp fun _ _ he => ⟨he.1, he.2.congr hs ht⟩
  cell h := by
    rw [hs.cells] at h ⊢
    rw [ht.cells]
    exact g.cell h
  ends hv hw h := by
    have hends := g.ends (hv.congr hs.symm) (hw.congr ht.symm) (h.congr hs.symm ht.symm)
    rwa [unwrap, unwrap, unwrapUpTo_congr hs.cells, unwrapUpTo_congr ht.cells, hs.endOf, ht.endOf]

theorem Paired.congr (h : Paired as s t root v w) : Paired as s' t' root v w :=
  ⟨h.left.congr hs, h.right.congr ht, h.coats.congr hs ht⟩

end SameGraph

/-! ## Values that stand for one another -/

theorem paired_of_not_isObject (h : v.isObject = false) : Paired as s t root v v where
  left := within_of_not_isObject h
  right := within_of_not_isObject h
  coats := (Value.recast_of_not_isObject h).symm ▸ .bare

theorem paired_root (as : Recasting) (s t : Store) (root : Value) :
    Paired as s t root root (root.recast as) where
  left := within_root s root
  right := within_root t _
  coats := .bare

namespace Paired

variable (g : Guise as s t root) (h : Paired as s t root v w)

include h

/-- Without its cells it stands for the same value. -/
theorem uncoated : Paired as s t root v (v.recast as) := by
  obtain ⟨left, right, coats⟩ := h
  induction coats with
  | bare => exact ⟨left, right, .bare⟩
  | inCell _ _ _ ih => exact ih (right.held (List.mem_singleton.2 rfl))

/-- What stands for a value is its own counterpart, or that inside a cell. -/
theorem bare_or_inCell : w = v.recast as ∨
    ∃ c, w = .cell c ∧ c < t.cells.size ∧ Paired as s t root v (t.cells.get c) := by
  obtain ⟨left, right, coats⟩ := h
  cases coats with
  | bare => exact .inl rfl
  | inCell _ hc h => exact .inr ⟨_, rfl, hc, left, right.held (List.mem_singleton.2 rfl), h⟩

include g

theorem has {o : Place} (ho : v.place? = some o) : s.Has o :=
  g.acyclic.has (h.left (by rw [← Value.isSome_place?, ho]; rfl)) ho

theorem isOld : v.IsOld as := by
  rintro m b hm rfl
  exact absurd (h.has g rfl) (Nat.not_lt.2 (g.isNew hm).1)

theorem items {l : Nat} (hv : v = .list l) (hw : w = .list l) :
    List.Forall₂ (Paired as s t root) (s.lists.get l) (t.lists.get l) := by
  subst hv hw
  exact forall₂_mem (g.items (h.has g rfl)) fun u hu u' hu' hcoats =>
    ⟨h.left.held hu, h.right.held hu', hcoats⟩

theorem slots {k : Holder} (hv : v = k.value) (hw : w = (k.recast as).value) :
    EntriesMatch (Paired as s t root) (s.slots k) (t.slots (k.recast as)) := by
  subst hv hw
  obtain ⟨o, ho⟩ := Option.isSome_iff_exists.1 (k.value.isSome_place?.trans (by simp))
  refine forall₂_mem (g.slots ho (h.has g ho)) fun e he e' he' hcoats =>
    ⟨hcoats.1, ?_, ?_, hcoats.2⟩
  · exact h.left.held (by rw [held_value]; exact List.mem_map_of_mem he)
  · exact h.right.held (by rw [held_value]; exact List.mem_map_of_mem he')

theorem cell {c : Nat} (hv : v = .cell c) (hw : w = .cell c) :
    Paired as s t root (s.cells.get c) (t.cells.get c) where
  left := h.left.held (by rw [hv]; exact List.mem_singleton.2 rfl)
  right := h.right.held (by rw [hw]; exact List.mem_singleton.2 rfl)
  coats := by
    subst hv
    rw [g.cell (h.has g rfl)]
    exact .bare

/-- What is found through the cells around a value is what is found around its counterpart. -/
theorem unwrap : Paired as s t root (s.unwrap v) (t.unwrap w) ∧
    t.unwrap w = (s.unwrap v).recast as := by
  have heq := (g.ends h.left h.right h.coats).1
  have hwithin {s : Store} {root v : Value} (h : s.Within root v) : s.Within root (s.unwrap v) := by
    intro hobject
    by_cases hv : v.isObject = true
    · exact (h hv).unwrap
    · rw [Store.unwrap, unwrapUpTo_of_not_cell (by rintro c rfl; exact hv rfl)] at hobject
      exact absurd hobject hv
  refine ⟨⟨hwithin h.left, hwithin h.right, ?_⟩, heq⟩
  rw [heq]
  exact .bare

/-- What a value holds stands for what the other holds. -/
theorem held (hw : w = v.recast as) : List.Forall₂ (Paired as s t root) (s.held v) (t.held w) := by
  subst hw
  cases hk : v.holder? with
  | some k =>
    obtain rfl := Holder.value_of_holder? hk
    rw [Value.recast_value] at h ⊢
    rw [held_value, held_value, List.forall₂_map_left_iff, List.forall₂_map_right_iff]
    exact List.Forall₂.imp (fun _ _ he => he.2) (h.slots g rfl rfl)
  | none =>
    cases v with
    | list l => exact h.items g rfl rfl
    | cell c => exact .cons (h.cell g rfl rfl) .nil
    | map | bean => cases hk
    | _ => exact .nil

/-! ### Depth -/

theorem exists_of_mem_held {w' : Value} (hw' : w' ∈ t.held w) :
    ∃ v', Paired as s t root v' w' := by
  rcases h.bare_or_inCell with hw | ⟨c, rfl, -, h'⟩
  · obtain ⟨v', -, h'⟩ := exists_mem_of_forall₂ (h.held g hw) hw'
    exact ⟨v', h'⟩
  · exact ⟨v, List.mem_singleton.1 hw' ▸ h'⟩

theorem has_right {o : Place} (ho : w.place? = some o) : t.Has o := by
  rcases h.bare_or_inCell with rfl | ⟨c, rfl, hc, -⟩
  · rcases Value.recast_cases as v with hv | ⟨m, b, rfl, hm, hv⟩ <;> rw [hv] at ho
    · have hhas := h.has g ho
      cases v <;> cases ho <;> simp only [Has] at hhas ⊢
      · exact g.lists_size ▸ hhas
      · exact g.maps_size ▸ hhas
      · exact Nat.lt_of_lt_of_le hhas g.beans_size
      · exact Nat.lt_of_lt_of_le hhas g.cells_size
    · obtain rfl := Option.some.inj ho
      exact (g.isNew hm).2
  · obtain rfl := Option.some.inj ho
    exact hc

end Paired

theorem Reaches.induct {P : Value → Prop} (h : s.Reaches v w) (hv : P v)
    (hstep : ∀ u, P u → ∀ u' ∈ s.held u, P u') : P w := by
  obtain ⟨route, h⟩ := h
  induction route generalizing v with
  | nil => exact Option.some.inj h ▸ hv
  | cons x route ih =>
    obtain ⟨u, hu, h⟩ := Option.bind_eq_some_iff.1 h
    exact ih (hstep v hv u (mem_held_of_hop hu)) h

theorem exists_shallow_of_forall {ws : List Value} (h : ∀ w ∈ ws, ∃ n, s.Shallow n w) :
    ∃ n, ∀ w ∈ ws, s.Shallow n w := by
  induction ws with
  | nil => exact ⟨0, by simp⟩
  | cons w ws ih =>
    obtain ⟨n, hn⟩ := h w (List.mem_cons_self ..)
    obtain ⟨m, hm⟩ := ih fun w hw => h w (List.mem_cons_of_mem _ hw)
    refine ⟨max n m, List.forall_mem_cons.2 ⟨hn.mono (Nat.le_max_left n m), fun w hw => ?_⟩⟩
    exact (hm w hw).mono (Nat.le_max_right n m)

theorem Coats.exists_shallow {n : Nat} (h : Coats s t v w) (hv : t.Shallow n v) :
    ∃ n, t.Shallow n w := by
  induction h with
  | bare => exact ⟨n, hv⟩
  | inCell _ _ _ ih =>
    obtain ⟨n, hn⟩ := ih
    exact ⟨n + 1, fun w hw => List.mem_singleton.1 hw ▸ hn⟩

section Guise

variable (g : Guise as s t root)

include g

theorem Paired.exists_shallow {n : Nat} (h : Paired as s t root v w) (hv : s.Shallow n v) :
    ∃ n, t.Shallow n w := by
  induction n generalizing v w with
  | zero =>
    refine h.coats.exists_shallow (n := 0) ?_
    rwa [Shallow, Value.isObject_recast]
  | succ n ih =>
    have hheld : ∀ w' ∈ t.held (v.recast as), ∃ m, t.Shallow m w' := fun w' hw' => by
      obtain ⟨v', hv', h'⟩ := exists_mem_of_forall₂ (h.uncoated.held g rfl) hw'
      exact ih h' (hv v' hv')
    obtain ⟨m, hm⟩ := exists_shallow_of_forall hheld
    exact h.coats.exists_shallow (n := m + 1) hm

/-- **The other guise of a graph without cycles has none either.** -/
theorem Guise.acyclic_right : t.Acyclic (root.recast as) := by
  obtain ⟨n, hn⟩ := (paired_root as s t root).exists_shallow g g.acyclic.shallow
  refine acyclic_of_shallow hn fun w o hw ho => ?_
  obtain ⟨v, h⟩ : ∃ v, Paired as s t root v w :=
    hw.induct (P := fun w => ∃ v, Paired as s t root v w) ⟨root, paired_root as s t root⟩
      fun u ⟨v, h⟩ u' hu' => h.exists_of_mem_held g hu'
  exact h.has_right g ho

omit g in
theorem Within.shallow (ha : s.Acyclic root) (h : s.Within root v) :
    s.Shallow s.objectCount v := by
  by_cases hobject : v.isObject = true
  · exact ha.shallow.reaches (h hobject)
  · exact shallow_of_not_isObject (Bool.eq_false_iff.2 hobject) _

/-! ## Conversions -/

omit g in
theorem object_cases (h : v.isObject = true) :
    (∃ l, v = .list l) ∨ (∃ k : Holder, v = k.value) ∨ ∃ c, v = .cell c := by
  cases v with
  | list l => exact .inl ⟨l, rfl⟩
  | map m => exact .inr (.inl ⟨.map m, rfl⟩)
  | bean b => exact .inr (.inl ⟨.bean b, rfl⟩)
  | cell c => exact .inr (.inr ⟨c, rfl⟩)
  | _ => cases h

/-- A conversion that looks into objects gives one result for values that stand for one another, if
it does so for values that hold nothing, and looks into the objects of both stores alike. -/
theorem Paired.convert_eq {α : Type} {f f' : Nat → Value → α}
    (hsame : ∀ v n m, v.isObject = false → f' m v = f n v)
    (hlist : ∀ l n m, List.Forall₂ (fun v w => f' m w = f n v) (s.lists.get l) (t.lists.get l) →
      f' (m + 1) (.list l) = f (n + 1) (.list l))
    (hslots : ∀ (k : Holder) n m, Paired as s t root k.value (k.recast as).value →
      EntriesMatch (fun v w => f' m w = f n v) (s.slots k) (t.slots (k.recast as)) →
      f' (m + 1) (k.recast as).value = f (n + 1) k.value)
    (hcell : ∀ c n, f (n + 1) (.cell c) = f n (s.cells.get c))
    (hcell' : ∀ c m, f' (m + 1) (.cell c) = f' m (t.cells.get c))
    {n m : Nat} (h : Paired as s t root v w) (hv : s.Shallow n v) (hw : t.Shallow m w) :
    f' m w = f n v := by
  induction m generalizing n v w with
  | zero =>
    obtain rfl := h.coats.eq_of_not_isObject hw
    rw [Shallow, Value.isObject_recast] at hw
    rw [Value.recast_of_not_isObject hw]
    exact hsame v n 0 hw
  | succ m ih =>
    rcases h.bare_or_inCell with rfl | ⟨c, rfl, -, h'⟩
    · by_cases hobject : v.isObject = true
      · obtain ⟨n, rfl⟩ := hv.exists_succ hobject
        rcases object_cases hobject with ⟨l, rfl⟩ | ⟨k, rfl⟩ | ⟨c, rfl⟩
        · exact hlist l n m <| forall₂_mem (h.items g rfl rfl) fun v hv' w hw' h' =>
            ih h' (hv v hv') (hw w hw')
        · rw [Value.recast_value] at h hw ⊢
          refine hslots k n m h (forall₂_mem (h.slots g rfl rfl) fun e he e' he' h' => ⟨h'.1, ?_⟩)
          exact ih h'.2 (hv e.2 (by rw [held_value]; exact List.mem_map_of_mem he))
            (hw e'.2 (by rw [held_value]; exact List.mem_map_of_mem he'))
        · rw [hcell]
          exact (hcell' c m).trans (ih (h.cell g rfl rfl) (hv _ (List.mem_singleton.2 rfl))
            (hw _ (List.mem_singleton.2 rfl)))
      · rw [Bool.not_eq_true] at hobject
        rw [Value.recast_of_not_isObject hobject]
        exact hsame v n (m + 1) hobject
    · rw [hcell']
      exact ih h' hv (hw _ (List.mem_singleton.2 rfl))

omit g in
theorem jsonUpTo_value (s : Store) (n : Nat) (k : Holder) :
    s.jsonUpTo (n + 1) k.value =
      jsonObject ((s.slots k).entries.map fun e => (e.1, s.jsonUpTo n e.2)) := by cases k <;> rfl

/-- **Values that stand for one another have one text as JSON.** -/
theorem Paired.jsonText_eq (h : Paired as s t root v w) : t.jsonText w = s.jsonText v := by
  have hforeign := g.foreigns
  refine h.convert_eq g (fun v n m hv => ?_) (fun l n m hitems => ?_) (fun k n m _ hslots => ?_)
    (fun _ _ => rfl) (fun _ _ => rfl) (h.left.shallow g.acyclic) (h.right.shallow g.acyclic_right)
  · cases v <;> first | (cases n <;> cases m <;> simp [jsonUpTo, hforeign]; done) | cases hv
  · rw [jsonUpTo, jsonUpTo, map_eq_of_forall₂ hitems]
  · rw [jsonUpTo_value, jsonUpTo_value]
    exact congrArg jsonObject (map_eq_of_forall₂ (hslots.imp fun e e' he => by rw [he.1, he.2]))

theorem Paired.toText_eq (h : Paired as s t root v w) : t.toText w = s.toText v := by
  have hforeign := g.foreigns
  refine h.convert_eq g (fun v n m hv => ?_) (fun l n m hitems => ?_) (fun k n m h' _ => ?_)
    (fun _ _ => rfl) (fun _ _ => rfl) (h.left.shallow g.acyclic) (h.right.shallow g.acyclic_right)
  · cases v <;> first | (cases n <;> cases m <;> simp [toTextUpTo, hforeign]; done) | cases hv
  · rw [toTextUpTo, toTextUpTo]
    generalize s.lists.get l = xs at hitems ⊢
    generalize t.lists.get l = ys at hitems ⊢
    cases hitems with
    | nil => rfl
    | cons hfirst _ => exact hfirst
  · have htext (s : Store) (n : Nat) (k : Holder) :
        s.toTextUpTo (n + 1) k.value = s.jsonText k.value := by cases k <;> rfl
    rw [htext, htext, h'.jsonText_eq g]

theorem Paired.toNumber_eq (h : Paired as s t root v w) : t.toNumber w = s.toNumber v := by
  refine h.convert_eq g (fun v n m hv => ?_) (fun l n m hitems => ?_) (fun k n m _ _ => ?_)
    (fun _ _ => rfl) (fun _ _ => rfl) (h.left.shallow g.acyclic) (h.right.shallow g.acyclic_right)
  · cases v <;> first | (cases n <;> cases m <;> simp only [toNumberUpTo]; done) | cases hv
  · rw [toNumberUpTo, toNumberUpTo]
    generalize s.lists.get l = xs at hitems ⊢
    generalize t.lists.get l = ys at hitems ⊢
    cases hitems with
    | nil => rfl
    | cons hfirst _ => exact hfirst
  · have hnumber (s : Store) (n : Nat) (k : Holder) :
        s.toNumberUpTo (n + 1) k.value = notANumber := by cases k <;> rfl
    rw [hnumber, hnumber]

/-- An object is as true as what stands for it, if that is in no cell. -/
theorem Paired.toBool_eq (h : Paired as s t root v (v.recast as)) :
    t.toBool (v.recast as) = s.toBool v := by
  cases v with
  | list l => exact congrArg Bool.not (forall₂_isEmpty (h.items g rfl rfl))
  | map m => exact Value.apply_recast (f := t.toBool) (fun _ _ => rfl) (.map m)
  | _ => rfl

end Guise

end Store

end PathQuery
