import PathQuery.Pointer.Navigate
import PathQuery.Proofs.Results

/-!
# The value at the end of a link

Under the standard registry the value of a pointer is a function of its node: the value in it, seen
through cells. Everything below a pointer follows from that value.

* names: `Store.SameGraph`, `Store.endUpTo?`, `Store.Selects`, `Node.end?`, `Node.IsPlain`,
  `Value.holder?`.
* **`value_eq_ok_iff`**: what a pointer shows is what its node shows. **`childrenWith_eq`**,
  `attributes_eq`, `slot?_eq`: and that decides what is found below it.
-/

namespace PathQuery

theorem Index.place?_element {i : Int} {k : Nat} (h : (element i).place? = some k) :
    0 ≤ i ∧ k = i.toNat := by
  rw [place?] at h
  split at h
  · next hi => exact ⟨hi, (Option.some.inj h).symm⟩
  · cases h

/-! ## Stores with one graph -/

namespace Store

/-- The stores hold the same objects and scopes; they may differ in the time and in what pointers
have settled. -/
def SameGraph (s t : Store) : Prop := ∃ now roots, t = { s with now, roots }

namespace SameGraph

variable {s t u : Store}

theorem refl (s : Store) : SameGraph s s := ⟨_, _, rfl⟩

theorem lists (h : SameGraph s t) : t.lists = s.lists := by
  obtain ⟨_, _, rfl⟩ := h
  rfl

theorem cells (h : SameGraph s t) : t.cells = s.cells := by
  obtain ⟨_, _, rfl⟩ := h
  rfl

theorem beans (h : SameGraph s t) : t.beans = s.beans := by
  obtain ⟨_, _, rfl⟩ := h
  rfl

theorem on (s : Store) (o : Occasion) : SameGraph s (s.on o) := ⟨_, _, rfl⟩

theorem tick (s : Store) : SameGraph s s.tick := ⟨_, _, rfl⟩

theorem symm (h : SameGraph s t) : SameGraph t s := by
  obtain ⟨_, _, rfl⟩ := h
  exact ⟨_, _, rfl⟩

theorem trans (h : SameGraph s t) (h' : SameGraph t u) : SameGraph s u := by
  obtain ⟨_, _, rfl⟩ := h
  obtain ⟨_, _, rfl⟩ := h'
  exact ⟨_, _, rfl⟩

end SameGraph

/-! ## Through cells -/

/-- The value inside fewer than `n` cells, if there is one that can be shown. -/
def endUpTo? (s : Store) : Nat → Value → Option Value
  | 0, _ | _, .foreign _ => none
  | n + 1, .cell c => s.endUpTo? n (s.cells.get c)
  | _ + 1, v => some v

variable {s t : Store}

theorem unwrapUpTo_of_not_cell {n : Nat} {v : Value} (h : ∀ c, v ≠ .cell c) :
    s.unwrapUpTo n v = v := by
  cases n <;> cases v <;> first | rfl | exact absurd rfl (h _)

theorem unwrapUpTo_of_endUpTo? {n m : Nat} {v w : Value} (hnm : n ≤ m + 1)
    (h : s.endUpTo? n v = some w) : s.unwrapUpTo m v = w := by
  induction n generalizing m v with
  | zero => simp [endUpTo?] at h
  | succ n ih =>
    by_cases hc : ∃ c, v = .cell c
    · obtain ⟨c, rfl⟩ := hc
      simp only [endUpTo?] at h
      obtain ⟨m, rfl⟩ : ∃ k, m = k + 1 := by
        refine ⟨m - 1, ?_⟩
        cases n with
        | zero => simp [endUpTo?] at h
        | succ n => omega
      simpa only [unwrapUpTo] using ih (by omega) h
    · rw [unwrapUpTo_of_not_cell fun c h => hc ⟨c, h⟩]
      cases v <;> simp_all [endUpTo?]

theorem endUpTo?_ne_cell {n : Nat} {v w : Value} (h : s.endUpTo? n v = some w) (c : Nat) :
    w ≠ .cell c := by
  induction n generalizing v with
  | zero => simp [endUpTo?] at h
  | succ n ih => cases v <;> simp_all [endUpTo?] <;> first | exact ih h | (rintro rfl; simp at h)

theorem endUpTo?_congr (h : t.cells = s.cells) (n : Nat) (v : Value) :
    t.endUpTo? n v = s.endUpTo? n v := by
  induction n generalizing v with
  | zero => cases v <;> rfl
  | succ n ih => cases v <;> simp [endUpTo?, h, ih]

theorem unwrapUpTo_congr (h : t.cells = s.cells) (n : Nat) (v : Value) :
    t.unwrapUpTo n v = s.unwrapUpTo n v := by
  induction n generalizing v with
  | zero => rfl
  | succ n ih => cases v <;> simp [unwrapUpTo, h, ih]

theorem items?_congr (hl : t.lists = s.lists) (hc : t.cells = s.cells) (v : Value) :
    t.items? v = s.items? v := by
  rw [items?, items?, unwrap, unwrap, unwrapUpTo_congr hc, hl]

theorem select_congr (hl : t.lists = s.lists) (hc : t.cells = s.cells) (v : Value)
    (index : Index) : t.select v index = s.select v index := by
  simp only [select, items?_congr hl hc]

theorem select_null (s : Store) (index : Index) : s.select .null index = .null := by
  cases index with
  | whole => rfl
  | element i =>
    cases hp : (Index.element i).place? with
    | none => simp [select, hp]
    | some k =>
      have : s.items? .null = none := rfl
      simp [select, hp, this]

section Select

variable {v : Value} {i : Int} {k l : Nat}

/-- Before the first element there is nothing. -/
theorem select_of_no_place (h : (Index.element i).place? = none) :
    s.select v (.element i) = .null := by
  simp [select, h]

theorem select_of_list (hk : (Index.element i).place? = some k) (hl : s.unwrap v = .list l) :
    s.select v (.element i) = (s.lists.get l).getD k .null := by
  simp [select, hk, items?, hl]

/-- A value that is no list counts as its own first element. -/
theorem select_of_not_list (hk : (Index.element i).place? = some k)
    (hl : ∀ l, s.unwrap v ≠ .list l) : s.select v (.element i) = if k = 0 then v else .null := by
  have hitems : s.items? v = none := by
    rw [items?]
    split
    · next l h => exact absurd h (hl l)
    · rfl
  simp [select, hk, hitems]

/-- What is at an index is the value itself, an item of the list in it, or the value again as the
only element of what is no list. -/
inductive Selects (s : Store) (v : Value) : Index → Value → Prop
  | whole : Selects s v .whole v
  | item {i : Int} {k l : Nat} {w : Value} (hk : (Index.element i).place? = some k)
      (hl : s.unwrap v = .list l) (hw : (s.lists.get l)[k]? = some w) : Selects s v (.element i) w
  | sole (hl : ∀ l, s.unwrap v ≠ .list l) : Selects s v (.element 0) v

/-- An index comes to null or selects what it comes to. -/
theorem selects_of_select {index : Index} {w : Value} (hw : s.select v index = w)
    (hnull : w ≠ .null) : s.Selects v index w := by
  subst hw
  cases index with
  | whole => exact .whole
  | element i =>
    cases hk : (Index.element i).place? with
    | none => exact absurd (select_of_no_place hk) hnull
    | some k =>
      by_cases hlist : ∃ l, s.unwrap v = .list l
      · obtain ⟨l, hl⟩ := hlist
        rw [select_of_list hk hl, List.getD_eq_getElem?_getD] at hnull ⊢
        refine .item hk hl ?_
        cases hget : (s.lists.get l)[k]? with
        | some w => rfl
        | none =>
          rw [hget] at hnull
          exact absurd rfl hnull
      · rw [not_exists] at hlist
        rw [select_of_not_list hk hlist] at hnull ⊢
        split at hnull
        · next hzero =>
          obtain ⟨hi, rfl⟩ := Index.place?_element hk
          obtain rfl : i = 0 := by omega
          exact .sole hlist
        · exact absurd rfl hnull

/-- What is shown after an index is at what the index selects. -/
theorem exists_selects_of_end {index : Index} {w : Value} {n : Nat}
    (hw : s.endUpTo? (n + 1) (s.select v index) = some w) (hnull : w ≠ .null) :
    ∃ x, s.Selects v index x ∧ s.endUpTo? (n + 1) x = some w := by
  refine ⟨_, selects_of_select rfl fun hselect => ?_, hw⟩
  rw [hselect] at hw
  exact hnull (Option.some.inj hw).symm

end Select

end Store

theorem Value.isNull_iff {v : Value} : v.isNull = true ↔ v = .null := by
  cases v <;> simp [isNull]

theorem Value.isNull_eq_false {v : Value} (h : v ≠ .null) : v.isNull = false :=
  Bool.eq_false_iff.2 (mt isNull_iff.1 h)

/-- The object that a value is, if it has slots. -/
def Value.holder? : Value → Option Holder
  | .map id => some (.map id)
  | .bean id => some (.bean id)
  | _ => none

/-- The node of a value itself, under a name. -/
def Value.node (v : Value) (name : Option QName) : Node :=
  match v with
  | .list id => .items id name .whole
  | .map id => .map id name
  | .bean id => .bean id name
  | .cell id => .cell id name
  | .null => .null name
  | v => .leaf v name

namespace Node

/-- Its value lies behind the node, and its pointer has to be made. -/
def isLink : Node → Bool
  | slot .. | var .. | cell .. => true
  | items _ _ index => index != .whole
  | _ => false

/-- The node is one that the standard registry makes, or a link to such a node. -/
def IsPlain : Node → Prop
  | leaf v _ => v.isScalar = true
  | element .. | markupText .. => False
  | _ => True

/-- The value at the end of a node, if it can be shown. -/
def end? (s : Store) (node : Node) : Option Value :=
  if node.isLink then s.endUpTo? (Store.maxIndirections - 1) (node.immediate s)
  else some (node.immediate s)

end Node

/-! ## Values -/

namespace Registry

variable (s : Store) (name : Option QName) (locale : Locale) (above : List Visit)

theorem create_standard {v : Value} (h : ∀ f, v ≠ .foreign f) :
    standard.create s name v locale above =
      .ok { visit := { node := v.node name, occasion := s.now }, above, locale } := by
  cases v <;> first | rfl | exact absurd rfl (h _)

theorem create_standard_foreign (f : Nat) :
    standard.create s name (.foreign f) locale above =
      .error (.unresolvable (s.kind (.foreign f))) := rfl

end Registry

namespace Pointer

variable {s : Store}

theorem immediate_node (v : Value) (name : Option QName) (h : ∀ c, v ≠ .cell c) :
    (v.node name).immediate s = v := by
  cases v <;> first | rfl | exact absurd rfl (h _)

/-- A value's own node leads to the end of the value. -/
theorem valuePointerUpTo_node {q : Pointer} {v : Value} (name : Option QName) (n : Nat)
    (hq : q.node = v.node name) (hv : ∀ f, v ≠ .foreign f) :
    match s.endUpTo? n v with
    | some w => ∃ q', q.valuePointerUpTo s .standard n = .ok (some q') ∧ q'.node = w.node name
    | none => q.valuePointerUpTo s .standard n = .ok none ∨
      ∃ e, q.valuePointerUpTo s .standard n = .error e := by
  induction n generalizing v q with
  | zero => cases v <;> exact .inl rfl
  | succ n ih =>
    by_cases hc : ∃ c, v = .cell c
    · obtain ⟨c, rfl⟩ := hc
      have hname : q.node.name? = name := by rw [hq]; rfl
      have himm : q.immediate s = s.cells.get c := by rw [immediate, hq]; rfl
      have hnext : q.next? s .standard = (do
          pure (some (← Registry.standard.create s name (s.cells.get c) q.locale q.chain))) := by
        rw [next?, himm, hname, hq]
        rfl
      simp only [Store.endUpTo?, valuePointerUpTo, hnext]
      by_cases hf : ∃ f, s.cells.get c = .foreign f
      · obtain ⟨f, hf⟩ := hf
        rw [hf, Registry.create_standard_foreign]
        cases n <;> exact .inr ⟨_, rfl⟩
      · have hf' : ∀ f, s.cells.get c ≠ .foreign f := fun f h => hf ⟨f, h⟩
        rw [Registry.create_standard s name _ _ hf']
        exact ih rfl hf'
    · have hnext : q.next? s .standard = .ok none := by
        rw [next?, hq]
        cases v <;> first | rfl | exact absurd ⟨_, rfl⟩ hc
      have hend : s.endUpTo? (n + 1) v = some v := by
        cases v <;> first | rfl | exact absurd ⟨_, rfl⟩ hc | exact absurd rfl (hv _)
      rw [hend, valuePointerUpTo, hnext]
      exact ⟨q, rfl, hq⟩

variable {p : Pointer}

theorem next?_of_isLink (h : p.node.isLink) :
    p.next? s .standard = (do
      let q ← Registry.standard.create s p.node.name? (p.immediate s) p.locale p.chain
      pure (some q)) := by
  rw [next?]
  cases hn : p.node with
  | items l name index =>
    have : index ≠ .whole := by simpa [hn, Node.isLink] using h
    simp [this]
  | _ => simp_all [Node.isLink]

theorem next?_of_not_isLink {r : Registry} (h : p.node.isLink = false) :
    p.next? s r = .ok none := by
  rw [next?]
  cases hn : p.node with
  | items l name index =>
    have : index = .whole := by simpa [hn, Node.isLink] using h
    simp [this]
  | _ => simp_all [Node.isLink]

/-- A plain node that is no link shows itself. -/
theorem node_eq_or_missing (hp : p.node.IsPlain) (h : p.node.isLink = false) :
    p.node = (p.immediate s).node p.node.name? ∨
      p.node.kind = "null-property" ∧ p.immediate s = .null := by
  cases hn : p.node with
  | items l name index =>
    have : index = .whole := by simpa [hn, Node.isLink] using h
    simp [immediate, hn, this, Node.immediate, Value.node, Node.name?]
  | leaf v name =>
    have : v.isScalar := by rwa [hn] at hp
    cases v <;> simp_all [immediate, Node.immediate, Node.base, Value.node, Value.isScalar,
      Store.select, Node.index, Node.name?]
  | missing name index isAttribute =>
    refine .inr ⟨rfl, ?_⟩
    rw [immediate, hn]
    exact Store.select_null s index
  | _ => simp_all [Node.isLink, Node.IsPlain, immediate, Node.immediate, Node.base, Value.node,
      Store.select, Node.index, Node.name?]

theorem valuePointer_eq_self {r : Registry} (h : p.node.isLink = false) :
    p.valuePointer s r = .ok p := by
  rw [valuePointer, show Store.maxIndirections = 1023 + 1 from rfl, valuePointerUpTo,
    next?_of_not_isLink h]
  rfl

/-- Where the value at the end of a pointer's node is found. -/
theorem valuePointer_of_end {v : Value} (hp : p.node.IsPlain) (h : p.node.end? s = some v) :
    ∃ q, p.valuePointer s .standard = .ok q ∧ q.immediate s = v ∧
      (q.node = v.node p.node.name? ∨ q = p ∧ p.node.kind = "null-property" ∧ v = .null) := by
  cases hl : p.node.isLink with
  | false =>
    have hv : p.immediate s = v := by simpa [Node.end?, hl, immediate] using h
    refine ⟨p, valuePointer_eq_self hl, hv, ?_⟩
    rcases node_eq_or_missing hp hl with hn | ⟨hk, hnull⟩
    · exact .inl (hv ▸ hn)
    · exact .inr ⟨rfl, hk, hv ▸ hnull⟩
  | true =>
    have hend : s.endUpTo? 1023 (p.immediate s) = some v := by
      simpa [Node.end?, hl, immediate, Store.maxIndirections] using h
    have hf : ∀ f, p.immediate s ≠ .foreign f := fun f hf => by
      simp [hf, Store.endUpTo?] at hend
    have hfound := valuePointerUpTo_node (s := s) (q := ⟨⟨_, s.now, none⟩, p.chain, p.locale⟩)
      p.node.name? 1023 rfl hf
    rw [hend] at hfound
    obtain ⟨q, hq, hnode⟩ := hfound
    refine ⟨q, ?_, ?_, .inl hnode⟩
    · rw [valuePointer, show Store.maxIndirections = 1023 + 1 from rfl, valuePointerUpTo,
        next?_of_isLink hl, Registry.create_standard s _ _ _ hf]
      exact congrArg (· >>= _) hq
    · rw [immediate, hnode]
      exact immediate_node v _ (Store.endUpTo?_ne_cell hend)

/-- A node without an end has no value pointer. -/
theorem valuePointer_of_no_end (h : p.node.end? s = none) :
    ∃ e, p.valuePointer s .standard = .error e := by
  have hl : p.node.isLink = true := by
    cases hl : p.node.isLink
    · simp [Node.end?, hl] at h
    · rfl
  have hend : s.endUpTo? 1023 (p.immediate s) = none := by
    simpa [Node.end?, hl, immediate, Store.maxIndirections] using h
  rw [valuePointer, show Store.maxIndirections = 1023 + 1 from rfl, valuePointerUpTo,
    next?_of_isLink hl]
  by_cases hf : ∃ f, p.immediate s = .foreign f
  · obtain ⟨f, hf⟩ := hf
    exact ⟨_, by rw [hf, Registry.create_standard_foreign]; rfl⟩
  · have hf' : ∀ f, p.immediate s ≠ .foreign f := fun f h => hf ⟨f, h⟩
    rw [Registry.create_standard s _ _ _ hf']
    have hfound := valuePointerUpTo_node (s := s) (q := ⟨⟨_, s.now, none⟩, p.chain, p.locale⟩)
      p.node.name? 1023 rfl hf'
    rw [hend] at hfound
    rcases hfound with hn | ⟨e, he⟩
    · exact ⟨_, congrArg (· >>= _) hn⟩
    · exact ⟨_, congrArg (· >>= _) he⟩

/-- **What a pointer shows is what its node shows.** -/
theorem value_eq_ok_iff {v : Value} (hp : p.node.IsPlain) :
    p.value s .standard = .ok v ↔ p.node.end? s = some v := by
  cases he : p.node.end? s with
  | none =>
    obtain ⟨e, he⟩ := valuePointer_of_no_end he
    simp [value, he]
  | some w =>
    obtain ⟨q, hq, himm, -⟩ := valuePointer_of_end hp he
    simp [value, hq, himm]

/-! ## What is found below a pointer -/

/-- What is done with a value pointer can be done with the value, if it is the same for the value's
own node and, should the value be absent, for a slot that does not exist. -/
theorem valuePointer_bind {α : Type} (hp : p.node.IsPlain) {f : Pointer → Except PathError α}
    {g : Value → Except PathError α}
    (hnode : ∀ q v, q.node = v.node p.node.name? → f q = g v)
    (hmissing : ∀ q name index isAttribute, q.node = .missing name index isAttribute →
      f q = g .null) :
    (p.valuePointer s .standard >>= f) = p.value s .standard >>= g := by
  rw [value]
  cases he : p.node.end? s with
  | none =>
    obtain ⟨e, he⟩ := valuePointer_of_no_end he
    simp [he]
  | some v =>
    obtain ⟨q, hq, himm, hn⟩ := valuePointer_of_end hp he
    simp only [hq, himm, Except.ok_bind, Except.pure_eq_ok]
    rcases hn with hn | ⟨rfl, hk, rfl⟩
    · exact hnode q v hn
    · cases hn : q.node with
      | missing => exact hmissing q _ _ _ hn
      | _ => simp [hn, Node.kind] at hk

/-- **The value of a pointer decides what its children are taken from.** -/
theorem childrenWith_eq (hp : p.node.IsPlain)
    (inner : Pointer → Except PathError (List Pointer)) :
    p.childrenWith s .standard inner = (do
      match ← p.value s .standard with
      | .list l =>
        let items := (List.range (s.lists.get l).length).map (p.item s l p.node.name?)
        pure (← items.mapM inner).flatten
      | v => pure ((v.holder?.map s.childNodes).getD [] |>.map (p.child s.now))) := by
  refine valuePointer_bind hp (fun q v h => ?_) fun q _ _ _ h => by rw [h]; rfl
  rw [h]
  cases v <;> rfl

theorem attributes_eq (hp : p.node.IsPlain) :
    p.attributes s .standard = (do
      let v ← p.value s .standard
      pure ((v.holder?.map s.attributeNodes).getD [] |>.map (p.child s.now))) := by
  refine valuePointer_bind hp (fun q v h => ?_) fun q _ _ _ h => by rw [h]; rfl
  rw [h]
  cases v <;> rfl

theorem slot?_eq (hp : p.node.IsPlain) (name : QName) (isAttribute : Bool) :
    p.slot? s .standard name isAttribute = (do
      let v ← p.value s .standard
      match v.holder? with
      | some h =>
        if (s.slots h).has name.text then
          pure (some (p.child s.now (.slot h name .whole isAttribute)))
        else pure none
      | none => pure none) := by
  refine valuePointer_bind hp (fun q v h => ?_) fun q _ _ _ h => by rw [h]; rfl
  rw [h]
  cases v <;> rfl

end Pointer

end PathQuery
