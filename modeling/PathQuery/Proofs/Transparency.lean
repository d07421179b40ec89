import PathQuery.Proofs.RecastPointers

/-!
# Graphs that queries do not tell apart

An expression without variables and extension functions has one answer at the root of a graph and at
the root of its other guises: where values are wrapped in cells, and where maps are beans.

* names: `Store.Corresponds`, `Answer.recast`; `Store.NestsWithin`, `Store.Wraps`; `Store.Replaces`.
* **`evaluate_recast`**: the answer in another guise is the answer recast, failures included.
* **`evaluate_of_wraps`**: cells below the root make no difference. **`evaluate_of_replaces`**:
  neither does it matter whether an object is a map or a bean.
-/

namespace PathQuery

/-! ## Values that correspond -/

namespace Store

variable {as : Recasting} {s t : Store} {root v w : Value}

/-- Related values are the same through their cells, with beans in place of maps, and what they hold
is related in the same order and under the same names. -/
structure IsCorrespondence (as : Recasting) (s t : Store) (P : Value → Value → Prop) : Prop where
  unwrap {v w : Value} (h : P v w) : t.unwrap w = (s.unwrap v).recast as
  items {v w : Value} {l : Nat} (h : P v w) (hl : s.unwrap v = .list l) :
    List.Forall₂ P (s.lists.get l) (t.lists.get l)
  slots {v w : Value} {k : Holder} (h : P v w) (hk : s.unwrap v = k.value) :
    EntriesMatch P (s.slots k) (t.slots (k.recast as))

/-- The values are equal all the way down, up to cells and to beans in place of maps. -/
def Corresponds (as : Recasting) (s t : Store) (v w : Value) : Prop :=
  ∃ P, IsCorrespondence as s t P ∧ P v w

theorem Paired.corresponds (g : Guise as s t root) (h : Paired as s t root v w) :
    Corresponds as s t v w := by
  refine ⟨Paired as s t root, ⟨fun h => (h.unwrap g).2, fun h hl => ?_, fun h hk => ?_⟩, h⟩
  · obtain ⟨hpaired, heq⟩ := h.unwrap g
    rw [heq, hl] at hpaired
    exact hpaired.items g rfl rfl
  · obtain ⟨hpaired, heq⟩ := h.unwrap g
    rw [heq, hk, Value.recast_value] at hpaired
    exact hpaired.slots g rfl rfl

end Store

/-! ## Answers in another guise -/

/-- The answer with beans in place of maps. -/
def Answer.recast (as : Recasting) : Answer → Answer
  | .nodes ps => .nodes (ps.map (Pointer.recast as))
  | .object v => .object (v.recast as)
  | a => a

theorem Answer.Alike.eq_recast {as : Recasting} {s t : Store} {root : Value} {a b : Answer}
    (h : a.Alike (Pointer.Recasts as s t root) ⊥ b) :
    b = a.recast as ∧
      ∀ ps, a = .nodes ps → ∀ p ∈ ps, p.Recasts as s t root (p.recast as) := by
  cases h with
  | @nodes ps qs hps =>
    have hqs : qs = ps.map (Pointer.recast as) := by
      have heq := map_eq_of_forall₂ (f := Pointer.recast as) (g := id)
        (hps.imp fun p q hp => hp.2)
      rwa [List.map_id] at heq
    refine ⟨congrArg Answer.nodes hqs, ?_⟩
    rintro _ ⟨⟩ p hp
    rw [hqs, List.forall₂_map_right_iff, List.forall₂_same] at hps
    exact hps p hp
  | object h => exact h.elim
  | _ => exact ⟨rfl, nofun⟩

namespace Environment

variable {as : Recasting} {s t : Store} {root : Value} {env env' : Environment} {o : Occasion}
variable {locale : Locale}

/-- Pointers to the root of a graph and to the root of its other guise are counterparts. -/
theorem root_recasts {p q : Pointer} (g : Store.Guise as s t root)
    (hp : Registry.standard.root (s.on o) root locale = .ok p)
    (hq : Registry.standard.root (t.on o) (root.recast as) locale = .ok q) :
    p.Recasts as s t root q := by
  have hforeign : ∀ f, root ≠ .foreign f := by
    rintro f rfl
    cases hp
  have hforeign' : ∀ f, root.recast as ≠ .foreign f := fun f h =>
    hforeign f ((Value.recast_eq_iff rfl).1 h)
  rw [Registry.root, Registry.create_standard _ _ _ _ hforeign] at hp
  rw [Registry.root, Registry.create_standard _ _ _ _ hforeign'] at hq
  obtain rfl := Except.ok.inj hp
  obtain rfl := Except.ok.inj hq
  refine ⟨.start (.value hforeign) ⟨(Node.IsStart.value hforeign).isOld g, by rintro _ ⟨⟩⟩, ?_⟩
  rw [← Node.recast_node]
  rfl

/-- **The answer in another guise of a graph is the answer recast**, failures included. Its nodes
have the same paths and show values that correspond. -/
theorem evaluate_recast (g : Store.Guise as s t root) (hr : Store.RootsMatch as s t)
    (hroot : Registry.standard.root (s.on o) root locale = .ok env.root)
    (hroot' : Registry.standard.root (t.on o) (root.recast as) locale = .ok env'.root)
    (hlocale : env'.locale = env.locale) (e : Expr) (he : e.isClosed = true) :
    ∃ x, (env.evaluate .standard e { node := env.root }).result s = (x, s) ∧
      (env'.evaluate .standard e { node := env'.root }).result t = (x.map (Answer.recast as), t) ∧
      ∀ ps, x = .ok (.nodes ps) → ∀ p ∈ ps, (p.recast as).path t = p.path s ∧
        Except.Alike (Store.Corresponds as s t) (p.value s .standard)
          ((p.recast as).value t .standard) := by
  have hp := root_recasts g hroot hroot'
  have hfocus : Focus.Alike (Pointer.Recasts as s t root) (· = ·) { node := env.root }
      { node := env'.root } := ⟨hp, rfl, rfl, rfl⟩
  obtain ⟨x, y, hx, hy, hxy⟩ := evaluate_alike (counterparts g hr) (fun _ _ h => by rw [h.2]; rfl)
    hp hlocale e he hfocus
  refine ⟨x, hx, ?_, ?_⟩
  · rw [hy]
    cases x with
    | error e =>
      rw [Except.alike_error_iff.1 hxy]
      rfl
    | ok a =>
      obtain ⟨b, rfl, hab⟩ := Except.alike_ok_iff.1 hxy
      rw [hab.eq_recast.1]
      rfl
  · rintro ps rfl p hps
    obtain ⟨b, -, hab⟩ := Except.alike_ok_iff.1 hxy
    have hp := hab.eq_recast.2 ps rfl p hps
    exact ⟨hp.path_eq g, (hp.value_alike g).imp fun v w hv => hv.paired.corresponds g⟩

end Environment

/-! ## Wrapped values -/

namespace Store

variable {s t : Store} {root v w : Value}

/-- Every value that can be reached shows its contents through at most `n` cells. -/
def NestsWithin (t : Store) (n : Nat) (root : Value) : Prop :=
  ∀ w, t.Reaches root w → ∀ c, t.unwrapUpTo n w ≠ .cell c

/-- The second store is the first one with some of the values in slots and some of the items of
lists inside cells that the first one does not have. -/
structure Wraps (s t : Store) : Prop where
  now : t.now = s.now
  roots : t.roots = s.roots
  foreigns : t.foreigns = s.foreigns
  lists_size : t.lists.size = s.lists.size
  maps_size : t.maps.size = s.maps.size
  beans_size : t.beans.size = s.beans.size
  cells_size : s.cells.size ≤ t.cells.size
  items {l : Nat} (h : l < s.lists.size) :
    List.Forall₂ (Coats s t) (s.lists.get l) (t.lists.get l)
  entries {m : Nat} (h : m < s.maps.size) : EntriesMatch (Coats s t) (s.maps.get m) (t.maps.get m)
  properties {b : Nat} (h : b < s.beans.size) :
    EntriesMatch (Coats s t) (s.beans.get b).properties (t.beans.get b).properties
  cell {c : Nat} (h : c < s.cells.size) : t.cells.get c = s.cells.get c

theorem unwrapUpTo_add {n : Nat} (h : ∀ c, s.unwrapUpTo n v ≠ .cell c) (k : Nat) :
    s.unwrapUpTo (n + k) v = s.unwrapUpTo n v := by
  induction n generalizing v with
  | zero =>
    have hv : s.unwrapUpTo 0 v = v := by cases v <;> rfl
    rw [hv] at h ⊢
    exact unwrapUpTo_of_not_cell h
  | succ n ih =>
    by_cases hc : ∃ c, v = .cell c
    · obtain ⟨c, rfl⟩ := hc
      rw [show n + 1 + k = n + k + 1 by omega]
      exact ih h
    · have hc' : ∀ c, v ≠ .cell c := fun c h => hc ⟨c, h⟩
      rw [unwrapUpTo_of_not_cell hc', unwrapUpTo_of_not_cell hc']

/-- A chain of cells that is not too long ends as it did before it was made longer. Induction on the
length that the longer chain may have. -/
theorem Wraps.ends (hw : s.Wraps t) (ha : s.Acyclic root) (h : Coats s t v w)
    (hv : s.Within root v) {n m : Nat} (hnm : n ≤ m) (hn : ∀ c, t.unwrapUpTo n w ≠ .cell c) :
    t.unwrapUpTo n w = s.unwrapUpTo m v ∧ t.endOf (n + 1) w = s.endOf (m + 1) v := by
  have hsame {v : Value} (n m : Nat) (hv : ∀ c, v ≠ .cell c) :
      t.unwrapUpTo n v = s.unwrapUpTo m v ∧ t.endOf (n + 1) v = s.endOf (m + 1) v := by
    rw [unwrapUpTo_of_not_cell hv, unwrapUpTo_of_not_cell hv]
    refine ⟨rfl, ?_⟩
    have hforeign := hw.foreigns
    cases v <;> first | rfl | exact absurd rfl (hv _) | simp only [endOf, kind, hforeign]
  induction n generalizing m v w with
  | zero =>
    have hcell : ∀ c, w ≠ .cell c := by
      rintro c rfl
      exact hn c rfl
    cases h with
    | bare => exact hsame 0 m hcell
    | inCell => exact absurd rfl (hcell _)
  | succ n ih =>
    obtain ⟨m, rfl⟩ : ∃ k, m = k + 1 := ⟨m - 1, by omega⟩
    cases h with
    | inCell _ _ h => exact ih h hv (by omega) hn
    | bare =>
      by_cases hc : ∃ c, v = .cell c
      · obtain ⟨c, rfl⟩ := hc
        have hcell : t.cells.get c = s.cells.get c := hw.cell (ha.has (hv rfl) rfl)
        simp only [unwrapUpTo, endOf, hcell] at hn ⊢
        exact ih .bare (hv.held (List.mem_singleton.2 rfl)) (by omega) hn
      · exact hsame _ _ fun c h => hc ⟨c, h⟩

/-- Wrapping values is a guise in which every map stays a map. -/
theorem Wraps.guise (hw : s.Wraps t) (ha : s.Acyclic root)
    (hn : t.NestsWithin (maxIndirections - 2) root) : Guise .keep s t root where
  acyclic := ha
  now := hw.now
  foreigns := hw.foreigns
  lists_size := hw.lists_size
  maps_size := hw.maps_size
  beans_size := Nat.le_of_eq hw.beans_size.symm
  cells_size := hw.cells_size
  isNew := nofun
  items h := by simpa only [Value.recast_keep] using hw.items h
  slots {h o} ho hhas := by
    simp only [Value.recast_keep]
    cases h with
    | map m =>
      obtain rfl := Option.some.inj ho
      exact hw.entries hhas
    | bean b =>
      obtain rfl := Option.some.inj ho
      exact hw.properties hhas
  cell h := by rw [hw.cell h, Value.recast_keep]
  ends {v w} hv hreach h := by
    rw [Value.recast_keep] at h hreach ⊢
    have hcell : ∀ c, t.unwrapUpTo (maxIndirections - 2) w ≠ .cell c := by
      by_cases hobject : w.isObject = true
      · exact hn w (hreach hobject)
      · have hne : ∀ c, w ≠ .cell c := by
          rintro c rfl
          exact hobject rfl
        rw [unwrapUpTo_of_not_cell hne]
        exact hne
    have hunwrap := (hw.ends ha h hv (m := maxIndirections) (by decide) hcell).1
    have hend := (hw.ends ha h hv (Nat.le_refl _) hcell).2
    refine ⟨?_, ?_⟩
    · rw [unwrap, unwrap, ← hunwrap]
      exact unwrapUpTo_add hcell 2
    · rw [show Value.recast .keep = id from funext Value.recast_keep, Option.map_id,
        Except.map_id]
      exact hend

end Store

/-! ### Nothing is recast -/

@[simp] theorem Holder.recast_keep (h : Holder) : h.recast .keep = h := by cases h <;> rfl

@[simp] theorem Node.recast_keep (n : Node) : n.recast .keep = n := by
  cases n with
  | slot h => rw [recast, Holder.recast_keep]
  | _ => rfl

@[simp] theorem Visit.recast_keep (x : Visit) : x.recast .keep = x := by
  have hvalue : Value.recast .keep = id := funext Value.recast_keep
  simp [recast, hvalue]

@[simp] theorem Pointer.recast_keep (p : Pointer) : p.recast .keep = p := by
  have hvisit : Visit.recast .keep = id := funext Visit.recast_keep
  simp [recast, hvisit]

@[simp] theorem Answer.recast_keep (a : Answer) : a.recast .keep = a := by
  have hpointer : Pointer.recast .keep = id := funext Pointer.recast_keep
  cases a <;> simp [recast, hpointer]

namespace Environment

variable {s t : Store} {root : Value} {env : Environment} {o : Occasion} {locale : Locale}

/-- **Cells below the root are transparent.** Where values in slots and items of lists are wrapped
in fresh cells, an expression without variables and extension functions has the same answer at the
root as before: the same scalar, the same failure, or the same nodes, which have the same paths and
show values that are equal up to cells. -/
theorem evaluate_of_wraps (ha : s.Acyclic root) (hw : s.Wraps t)
    (hn : t.NestsWithin (Store.maxIndirections - 2) root)
    (hroot : Registry.standard.root (s.on o) root locale = .ok env.root) (e : Expr)
    (he : e.isClosed = true) :
    ∃ x, (env.evaluate .standard e { node := env.root }).result s = (x, s) ∧
      (env.evaluate .standard e { node := env.root }).result t = (x, t) ∧
      ∀ ps, x = .ok (.nodes ps) → ∀ p ∈ ps, p.path t = p.path s ∧
        Except.Alike (Store.Corresponds .keep s t) (p.value s .standard)
          (p.value t .standard) := by
  have hr : Store.RootsMatch .keep s t := by
    refine ⟨fun {p} _ => ?_, fun _ => nofun⟩
    rw [show Value.recast .keep = id from funext Value.recast_keep, Option.map_id,
      Pointer.recast_keep, hw.roots]
    rfl
  have hroot' : Registry.standard.root (t.on o) (root.recast .keep) locale = .ok env.root := by
    have hforeign : ∀ f, root ≠ .foreign f := by
      rintro f rfl
      cases hroot
    rw [Registry.root, Registry.create_standard _ _ _ _ hforeign] at hroot
    rw [Registry.root, Value.recast_keep, Registry.create_standard _ _ _ _ hforeign]
    exact hroot
  obtain ⟨x, hx, hy, hnodes⟩ := evaluate_recast (hw.guise ha hn) hr hroot hroot' rfl e he
  have hanswer : Answer.recast .keep = id := funext Answer.recast_keep
  refine ⟨x, hx, ?_, ?_⟩
  · rwa [hanswer, Except.map_id] at hy
  · simpa only [Pointer.recast_keep] using hnodes

/-- A map with a text and a list of texts. -/
def crate : Store where
  lists := ⟨#[[.text "x", .text "y"]]⟩
  maps := ⟨#[.ofList [("a", .text "z"), ("b", .list 0)]]⟩

/-- The same with the list in two cells and one of its items in one. -/
def wrappedCrate : Store where
  lists := ⟨#[[.text "x", .cell 0]]⟩
  maps := ⟨#[.ofList [("a", .text "z"), ("b", .cell 2)]]⟩
  cells := ⟨#[.text "y", .list 0, .cell 1]⟩

/-- An environment at the map. -/
def crateEnvironment : Environment where
  root := { visit := { node := .map 0 none, occasion := {} } }
  locale := {}
  lenient := false
  own := { scope := 0 }

theorem acyclic_crate : crate.Acyclic (.map 0) := by
  refine Store.acyclic_of_shallow (n := 2) ?_ fun v o hv ho => ?_
  · simp [Store.Shallow, Store.held, crate, Store.slots, Pool.get, Table.ofList, Table.insert,
      Table.put, Table.empty, Value.isObject]
  · have hmem : v ∈ [Value.map 0, .text "z", .list 0, .text "x", .text "y"] :=
      hv.mem (List.mem_cons_self ..) (by decide)
    simp only [List.mem_cons, List.not_mem_nil, or_false] at hmem
    rcases hmem with rfl | rfl | rfl | rfl | rfl <;> cases ho <;> exact Nat.one_pos

theorem wraps_crate : crate.Wraps wrappedCrate where
  now := rfl
  roots := rfl
  foreigns := rfl
  lists_size := rfl
  maps_size := rfl
  beans_size := rfl
  cells_size := by decide
  items h := by
    obtain rfl := Nat.lt_one_iff.1 h
    exact .cons .bare (.cons (.inCell (by decide) (by decide) .bare) .nil)
  entries h := by
    obtain rfl := Nat.lt_one_iff.1 h
    exact .cons ⟨rfl, .bare⟩ (.cons ⟨rfl, .inCell (by decide) (by decide)
      (.inCell (by decide) (by decide) .bare)⟩ .nil)
  properties h := absurd h (Nat.not_lt_zero _)
  cell h := absurd h (Nat.not_lt_zero _)

theorem nestsWithin_wrappedCrate :
    wrappedCrate.NestsWithin (Store.maxIndirections - 2) (.map 0) := by
  intro w hw c
  have hmem : w ∈ [Value.map 0, .text "z", .cell 2, .cell 1, .list 0, .text "x", .cell 0,
      .text "y"] := hw.mem (List.mem_cons_self ..) (by decide)
  simp only [List.mem_cons, List.not_mem_nil, or_false] at hmem
  rcases hmem with rfl | rfl | rfl | rfl | rfl | rfl | rfl | rfl <;> nofun

/-- What is asked for compares texts below the root, in both guises with one answer. -/
theorem evaluate_of_wraps_crate :
    let e : Expr := .path .here [.mk .descendant (.type .node)
      [.binary .notEqual (.path .here [.mk .self (.type .node) []]) (.literal "x")]]
    crate.Acyclic (.map 0) ∧ crate.Wraps wrappedCrate ∧
      wrappedCrate.NestsWithin (Store.maxIndirections - 2) (.map 0) ∧
      ∃ x, (crateEnvironment.evaluate .standard e { node := crateEnvironment.root }).result crate =
          (x, crate) ∧
        (crateEnvironment.evaluate .standard e { node := crateEnvironment.root }).result
          wrappedCrate = (x, wrappedCrate) := by
  intro e
  have hroot : Registry.standard.root (crate.on {}) (.map 0) {} = .ok crateEnvironment.root := rfl
  obtain ⟨x, hx, hy, -⟩ :=
    evaluate_of_wraps acyclic_crate wraps_crate nestsWithin_wrappedCrate hroot e rfl
  exact ⟨acyclic_crate, wraps_crate, nestsWithin_wrappedCrate, x, hx, hy⟩

end Environment

/-! ## Maps as beans -/

namespace Store

variable {as : Recasting} {s t : Store} {root v : Value}

/-- The second store is the first one with beans of its own in place of some maps, wherever they are
held. -/
structure Replaces (as : Recasting) (s t : Store) : Prop where
  now : t.now = s.now
  roots : RootsMatch as s t
  foreigns : t.foreigns = s.foreigns
  lists_size : t.lists.size = s.lists.size
  maps_size : t.maps.size = s.maps.size
  beans_size : s.beans.size ≤ t.beans.size
  cells_size : t.cells.size = s.cells.size
  items {l : Nat} (h : l < s.lists.size) : t.lists.get l = (s.lists.get l).map (Value.recast as)
  /-- A bean has the names, the values and the order of the map that it stands for. -/
  replaced {m b : Nat} (h : as.bean? m = some b) : s.beans.size ≤ b ∧ b < t.beans.size ∧
    (t.beans.get b).properties = (s.maps.get m).map (Value.recast as)
  kept {m : Nat} (h : as.bean? m = none) (hm : m < s.maps.size) :
    t.maps.get m = (s.maps.get m).map (Value.recast as)
  properties {b : Nat} (h : b < s.beans.size) :
    (t.beans.get b).properties = (s.beans.get b).properties.map (Value.recast as)
  cell {c : Nat} (h : c < s.cells.size) : t.cells.get c = (s.cells.get c).recast as

theorem entriesMatch_map (table : Table Value) :
    EntriesMatch (fun v w => Coats s t (v.recast as) w) table (table.map (Value.recast as)) := by
  rw [EntriesMatch, Table.map, List.forall₂_map_right_iff, List.forall₂_same]
  exact fun _ _ => ⟨rfl, .bare⟩

/-- Chains of cells go on alike, cell by cell. -/
theorem Replaces.ends (hw : Replaces as s t) (ha : s.Acyclic root) (hv : s.Within root v)
    (n : Nat) :
    t.unwrapUpTo n (v.recast as) = (s.unwrapUpTo n v).recast as ∧
      t.endOf n (v.recast as) = (s.endOf n v).map (Option.map (Value.recast as)) := by
  have hflat {v : Value} (n : Nat) (hc : ∀ c, v ≠ .cell c) :
      t.unwrapUpTo n (v.recast as) = (s.unwrapUpTo n v).recast as ∧
        t.endOf n (v.recast as) = (s.endOf n v).map (Option.map (Value.recast as)) := by
    have hc' : ∀ c, v.recast as ≠ .cell c := fun c h => hc c ((Value.recast_eq_iff rfl).1 h)
    rw [unwrapUpTo_of_not_cell hc, unwrapUpTo_of_not_cell hc']
    refine ⟨rfl, ?_⟩
    by_cases hf : ∃ f, v = .foreign f
    · obtain ⟨f, rfl⟩ := hf
      have hforeign := hw.foreigns
      cases n <;> simp only [Value.recast, endOf, kind, hforeign] <;> rfl
    · have hf' : ∀ f, v ≠ .foreign f := fun f h => hf ⟨f, h⟩
      have hf'' : ∀ f, v.recast as ≠ .foreign f := fun f h =>
        hf' f ((Value.recast_eq_iff rfl).1 h)
      cases n with
      | zero =>
        rw [endOf_zero hf', endOf_zero hf'']
        rfl
      | succ n =>
        rw [endOf_of_ne_cell n hc hf', endOf_of_ne_cell n hc' hf'']
        rfl
  induction n generalizing v with
  | zero =>
    by_cases hc : ∃ c, v = .cell c
    · obtain ⟨c, rfl⟩ := hc
      exact ⟨rfl, rfl⟩
    · exact hflat 0 fun c h => hc ⟨c, h⟩
  | succ n ih =>
    by_cases hc : ∃ c, v = .cell c
    · obtain ⟨c, rfl⟩ := hc
      have hcell : t.cells.get c = (s.cells.get c).recast as := hw.cell (ha.has (hv rfl) rfl)
      simp only [Value.recast, unwrapUpTo, endOf, hcell]
      exact ih (hv.held (List.mem_singleton.2 rfl))
    · exact hflat (n + 1) fun c h => hc ⟨c, h⟩

/-- Where no cells are added, a value is in none but those of the value that it stands for. -/
theorem Coats.eq_of_cells_size {w : Value} (h : Coats s t v w)
    (hsize : t.cells.size = s.cells.size) : w = v := by
  cases h with
  | bare => rfl
  | inCell hfresh hc => omega

/-- Beans in place of maps are a guise. -/
theorem Replaces.guise (hw : Replaces as s t) (ha : s.Acyclic root) : Guise as s t root where
  acyclic := ha
  now := hw.now
  foreigns := hw.foreigns
  lists_size := hw.lists_size
  maps_size := hw.maps_size
  beans_size := hw.beans_size
  cells_size := Nat.le_of_eq hw.cells_size.symm
  isNew h := ⟨(hw.replaced h).1, (hw.replaced h).2.1⟩
  items h := by
    rw [hw.items h, List.forall₂_map_right_iff, List.forall₂_same]
    exact fun _ _ => .bare
  slots {h o} ho hhas := by
    cases h with
    | map m =>
      obtain rfl := Option.some.inj ho
      cases hm : as.bean? m with
      | none =>
        rw [Holder.recast, hm]
        show EntriesMatch _ (s.maps.get m) (t.maps.get m)
        rw [hw.kept hm hhas]
        exact entriesMatch_map _
      | some b =>
        rw [Holder.recast, hm]
        show EntriesMatch _ (s.maps.get m) (t.beans.get b).properties
        rw [(hw.replaced hm).2.2]
        exact entriesMatch_map _
    | bean b =>
      obtain rfl := Option.some.inj ho
      show EntriesMatch _ (s.beans.get b).properties (t.beans.get b).properties
      rw [hw.properties hhas]
      exact entriesMatch_map _
  cell h := hw.cell h
  ends hv _ h := by
    rw [h.eq_of_cells_size hw.cells_size]
    exact ⟨(hw.ends ha hv _).1, (hw.ends ha hv _).2⟩

end Store

namespace Environment

variable {as : Recasting} {s t : Store} {root : Value} {env env' : Environment} {o : Occasion}
variable {locale : Locale}

/-- **Maps and beans are interchangeable.** Where beans of the same names, values and order stand in
place of maps, an expression without variables and extension functions has the same answer at the
root as before: the same scalar, the same failure, or nodes with the same paths in the same order,
which show values that correspond. -/
theorem evaluate_of_replaces (ha : s.Acyclic root) (hw : Store.Replaces as s t)
    (hroot : Registry.standard.root (s.on o) root locale = .ok env.root)
    (hroot' : Registry.standard.root (t.on o) (root.recast as) locale = .ok env'.root)
    (hlocale : env'.locale = env.locale) (e : Expr) (he : e.isClosed = true) :
    ∃ x, (env.evaluate .standard e { node := env.root }).result s = (x, s) ∧
      (env'.evaluate .standard e { node := env'.root }).result t = (x.map (Answer.recast as), t) ∧
      ∀ ps, x = .ok (.nodes ps) → ∀ p ∈ ps, (p.recast as).path t = p.path s ∧
        Except.Alike (Store.Corresponds as s t) (p.value s .standard)
          ((p.recast as).value t .standard) :=
  evaluate_recast (hw.guise ha) hw.roots hroot hroot' hlocale e he

/-- A map that holds another map in a slot and in a list. -/
def registerOfMaps : Store where
  lists := ⟨#[[.map 1]]⟩
  maps := ⟨#[.ofList [("a", .map 1), ("b", .list 0)], .ofList [("c", .text "x")]]⟩

/-- Both maps are beans with their own numbers. -/
def bothMaps : Recasting where
  bean? m := if m < 2 then some m else none
  injective h h' := by
    simp only [Option.ite_none_right_eq_some, Option.some.injEq] at h h'
    exact h.2.trans h'.2.symm

/-- The same with beans in place of the maps. -/
def registerOfBeans : Store where
  lists := ⟨#[[.bean 1]]⟩
  maps := registerOfMaps.maps
  beans := ⟨#[{ type := "Record", properties := .ofList [("a", .bean 1), ("b", .list 0)] },
    { type := "Record", properties := .ofList [("c", .text "x")] }]⟩

theorem acyclic_registerOfMaps : registerOfMaps.Acyclic (.map 0) := by
  refine Store.acyclic_of_shallow (n := 3) ?_ fun v o hv ho => ?_
  · simp [Store.Shallow, Store.held, registerOfMaps, Store.slots, Pool.get, Table.ofList,
      Table.insert, Table.put, Table.empty, Value.isObject]
  · have hmem : v ∈ [Value.map 0, .map 1, .list 0, .text "x"] :=
      hv.mem (List.mem_cons_self ..) (by decide)
    simp only [List.mem_cons, List.not_mem_nil, or_false] at hmem
    rcases hmem with rfl | rfl | rfl | rfl <;> cases ho <;>
      simp [Store.Has, registerOfMaps, Pool.size]

theorem replaces_registerOfMaps : Store.Replaces bothMaps registerOfMaps registerOfBeans where
  now := rfl
  roots := ⟨fun _ => rfl, nofun⟩
  foreigns := rfl
  lists_size := rfl
  maps_size := rfl
  beans_size := by decide
  cells_size := rfl
  items h := by
    obtain rfl := Nat.lt_one_iff.1 h
    rfl
  replaced {m b} h := by
    simp only [bothMaps, Option.ite_none_right_eq_some, Option.some.injEq] at h
    obtain ⟨hm, rfl⟩ := h
    obtain rfl | rfl : m = 0 ∨ m = 1 := by omega
    · exact ⟨Nat.le_refl 0, Nat.two_pos, rfl⟩
    · exact ⟨Nat.zero_le 1, Nat.one_lt_two, rfl⟩
  kept {m} h hm := by
    simp only [bothMaps, ite_eq_right_iff, reduceCtorEq, imp_false] at h
    exact absurd hm h
  properties h := absurd h (Nat.not_lt_zero _)
  cell h := absurd h (Nat.not_lt_zero _)

/-- An environment at the bean that stands for the outer map. -/
def registerEnvironment : Environment :=
  { crateEnvironment with root := { visit := { node := .bean 0 none, occasion := {} } } }

/-- What is asked for are all nodes below the root, through the map that is held twice. -/
theorem evaluate_of_replaces_register :
    let e : Expr := .path .here [.mk .descendant (.type .node) []]
    registerOfMaps.Acyclic (.map 0) ∧ Store.Replaces bothMaps registerOfMaps registerOfBeans ∧
      ∃ x, (crateEnvironment.evaluate .standard e { node := crateEnvironment.root }).result
          registerOfMaps = (x, registerOfMaps) ∧
        (registerEnvironment.evaluate .standard e { node := registerEnvironment.root }).result
          registerOfBeans = (x.map (Answer.recast bothMaps), registerOfBeans) := by
  intro e
  have hroot : Registry.standard.root (registerOfMaps.on {}) (.map 0) {} =
      .ok crateEnvironment.root := rfl
  have hroot' : Registry.standard.root (registerOfBeans.on {}) ((Value.map 0).recast bothMaps) {} =
      .ok registerEnvironment.root := rfl
  obtain ⟨x, hx, hy, -⟩ :=
    evaluate_of_replaces acyclic_registerOfMaps replaces_registerOfMaps hroot hroot' rfl e rfl
  exact ⟨acyclic_registerOfMaps, replaces_registerOfMaps, x, hx, hy⟩

end Environment

end PathQuery
