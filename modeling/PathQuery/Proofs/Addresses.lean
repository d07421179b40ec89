import PathQuery.Proofs.Chains
import PathQuery.Proofs.PrintedPaths
import PathQuery.Proofs.Routes
import PathQuery.Proofs.Tables
import PathQuery.Proofs.Walks

/-!
# Addresses of nodes

A pointer stands at an address if its chain leads down from the root through slots and items that
exist. Its path lists their names and numbers.

* names: `Addressed`, `Pointer.IsAddressed`, `Store.NamesReached`, `Grammar.addressText`.
* **`kept_isAddressed`**: moves lead from address to address. **`Addressed.path`**: the path of a
  pointer is the text of its address.
-/

namespace PathQuery

/-- The numbers that an index puts into a path. -/
def Index.places : Index → List Nat
  | whole => []
  | element i => [(i + 1).toNat]

theorem Index.length_places_le (index : Index) : index.places.length ≤ 1 := by
  cases index <;> simp [places]

/-- A chain of nodes, the nearest first, that leads down from an object through slots and items that
exist, and the steps of its path. The items of a list that is itself an item add their numbers to
the step of the slot above them. -/
inductive Addressed (s : Store) (root : Holder) : List Node → List Segment → Prop
  | root : Addressed s root [root.value.node none] []
  | slot {n : Node} {ns : List Node} {gs : List Segment} {h : Holder} {name : String} {v : Value}
    {index : Index} (hn : Addressed s root (n :: ns) gs) (hend : n.end? s = some h.value)
    (hentry : (s.slots h).get? name = some v)
    (hnode : .slot h (.bare name) index false ∈ s.slotNodes h name v) :
    Addressed s root (.slot h (.bare name) index false :: n :: ns) (gs ++ [⟨name, index.places⟩])
  | item {n : Node} {ns : List Node} {gs : List Segment} {name : String} {places : List Nat}
    {l i : Nat} {label : Option QName} (hn : Addressed s root (n :: ns) (gs ++ [⟨name, places⟩]))
    (hend : n.end? s = some (.list l)) (hi : i < (s.lists.get l).length) :
    Addressed s root (.items l label (.element i) :: n :: ns) (gs ++ [⟨name, places ++ [i + 1]⟩])

namespace Store

variable {s t : Store} {h : Holder} {name : String} {v : Value}

theorem SameGraph.slots (ht : s.SameGraph t) (h : Holder) : t.slots h = s.slots h := by
  obtain ⟨_, _, rfl⟩ := ht
  cases h <;> rfl

theorem SameGraph.items? (ht : s.SameGraph t) (v : Value) : t.items? v = s.items? v :=
  items?_congr ht.lists ht.cells v

theorem SameGraph.slotNodes (ht : s.SameGraph t) (h : Holder) (name : String) (v : Value) :
    t.slotNodes h name v = s.slotNodes h name v := by
  simp only [Store.slotNodes, ht.items?]

/-- The node of a slot is the whole of what is no list, or one item of a list. -/
theorem mem_slotNodes_iff {index : Index} :
    .slot h (.bare name) index false ∈ s.slotNodes h name v ↔
      match s.items? v with
      | none => index = .whole
      | some items => ∃ i : Nat, i < items.length ∧ index = .element i := by
  rw [slotNodes]
  cases s.items? v with
  | none => simp
  | some items => simp [eq_comm]

theorem slot_eq (hv : (s.slots h).get? name = some v) : s.slot h name = v := by simp [slot, hv]

end Store

namespace Addressed

variable {s t : Store} {root : Holder} {n m : Node} {ns : List Node} {gs : List Segment}

theorem congr (ht : s.SameGraph t) (h : Addressed s root ns gs) : Addressed t root ns gs := by
  induction h with
  | root => exact .root
  | slot _ hend hentry hnode ih =>
    exact .slot ih (by rwa [ht.end?]) (by rwa [ht.slots]) (by rwa [ht.slotNodes])
  | item _ hend hi ih => exact .item ih (by rwa [ht.end?]) (by rwa [ht.lists])

theorem isPlain (h : Addressed s root (n :: ns) gs) : n.IsPlain := by
  cases h with
  | root => cases root <;> trivial
  | slot => trivial
  | item => trivial

/-- No node at an address is the whole of a list. -/
theorem not_isWholeCollection (h : Addressed s root (n :: ns) gs) :
    (n.index == .whole && n.isCollection s) = false := by
  cases h with
  | root => cases root <;> rfl
  | slot _ _ hentry hnode =>
    rw [Store.mem_slotNodes_iff] at hnode
    split at hnode
    · next hitems => simp [Node.isCollection, Node.base, QName.text, QName.bare,
        Store.slot_eq hentry, hitems]
    · obtain ⟨i, -, rfl⟩ := hnode
      rfl
  | item => rfl

theorem tail (h : Addressed s root (m :: n :: ns) gs) : ∃ gs', Addressed s root (n :: ns) gs' := by
  cases h with
  | slot hn => exact ⟨_, hn⟩
  | item hn => exact ⟨_, hn⟩

/-- The end of a chain at an address is at an address. -/
theorem suffix {m : Node} {below : List Node} (h : Addressed s root (below ++ m :: ns) gs) :
    ∃ gs', Addressed s root (m :: ns) gs' := by
  induction below generalizing gs with
  | nil => exact ⟨gs, h⟩
  | cons n below ih =>
    cases hb : below ++ m :: ns with
    | nil => simp at hb
    | cons n' ns' =>
      rw [List.cons_append, hb] at h
      obtain ⟨gs', h'⟩ := h.tail
      exact ih (hb ▸ h')

/-- A node that shows a list has a step in its path. -/
theorem exists_last (h : Addressed s root (n :: ns) gs) {l : Nat}
    (hend : n.end? s = some (.list l)) : ∃ gs' name places, gs = gs' ++ [⟨name, places⟩] := by
  cases h with
  | root => cases root <;> simp [Holder.value, Value.node, Node.end?, Node.isLink, Node.immediate,
      Node.base, Node.index, Store.select] at hend
  | slot => exact ⟨_, _, _, rfl⟩
  | item => exact ⟨_, _, _, rfl⟩

end Addressed

/-! ## What stands at an address can be reached -/

namespace Store

/-- The names of all slots that can be reached are names of path steps. -/
def NamesReached (s : Store) (root : Value) : Prop :=
  ∀ (h : Holder) (name : String), s.Reaches root h.value → name ∈ (s.slots h).keys →
    Grammar.IsName name

/-- All lists that can be reached are so short that the numbers of their items are exact. -/
def ShortLists (s : Store) (root : Value) : Prop :=
  ∀ l, s.Reaches root (.list l) → (s.lists.get l).length < 2 ^ 53

variable {s : Store}

theorem NamesReached.congr {t : Store} {root : Value} (h : s.NamesReached root)
    (ht : s.SameGraph t) : t.NamesReached root := by
  simpa only [NamesReached, ht.reaches, ht.slots] using h

theorem ShortLists.congr {t : Store} {root : Value} (h : s.ShortLists root)
    (ht : s.SameGraph t) : t.ShortLists root := by
  simpa only [ShortLists, ht.reaches, ht.lists] using h

theorem Reaches.slot {root v : Value} {h : Holder} {name : String} (hh : s.Reaches root h.value)
    (hv : (s.slots h).get? name = some v) : s.Reaches root v :=
  hh.trans ⟨_, follow_key hv⟩

theorem Reaches.unwrap {root v : Value} (hv : s.Reaches root v) :
    s.Reaches root (s.unwrap v) :=
  hv.trans ((follow_unwrapUpTo s _ v).imp' _ fun _ h => h)

theorem items?_eq_some_iff {v : Value} {items : List Value} :
    s.items? v = some items ↔ ∃ l, s.unwrap v = .list l ∧ items = s.lists.get l := by
  rw [items?]
  cases s.unwrap v <;> simp [eq_comm]

theorem items?_of_endUpTo? {v : Value} {l : Nat}
    (h : s.endUpTo? (Store.maxIndirections - 1) v = some (.list l)) :
    s.items? v = some (s.lists.get l) := by
  rw [items?, unwrap, unwrapUpTo_of_endUpTo? (by decide) h]

theorem Reaches.items {root v w : Value} {items : List Value} {i : Nat} (hv : s.Reaches root v)
    (hitems : s.items? v = some items) (hw : items[i]? = some w) : s.Reaches root w := by
  obtain ⟨l, hl, rfl⟩ := items?_eq_some_iff.1 hitems
  exact (hl ▸ hv.unwrap).trans ⟨_, follow_item hw⟩

end Store

namespace Node

variable {s : Store} {h : Holder} {name : String} {v : Value} {isAttribute : Bool}

theorem end?_slot (index : Index) :
    (slot h (.bare name) index isAttribute).end? s =
      s.endUpTo? (Store.maxIndirections - 1)
        ((slot h (.bare name) index isAttribute).immediate s) := rfl

theorem immediate_slot (index : Index) :
    (slot h (.bare name) index isAttribute).immediate s = s.select (s.slot h name) index := rfl

theorem immediate_slot_whole (hv : (s.slots h).get? name = some v) :
    (slot h (.bare name) .whole isAttribute).immediate s = v := by
  rw [immediate_slot, Store.slot_eq hv]
  rfl

theorem immediate_slot_element {items : List Value} {i : Nat}
    (hv : (s.slots h).get? name = some v) (hitems : s.items? v = some items) :
    (slot h (.bare name) (.element i) isAttribute).immediate s = (items[i]?).getD .null := by
  rw [immediate_slot, Store.slot_eq hv]
  simp [Store.select, Index.place?, hitems]

theorem immediate_item {l i : Nat} {label : Option QName} :
    (items l label (.element i)).immediate s = ((s.lists.get l)[i]?).getD .null := by
  simp [immediate, Index.place?]

/-- What a node shows at its end is inside what it shows at once. -/
theorem reaches_end {node : Node} (hend : node.end? s = some v) :
    s.Reaches (node.immediate s) v := by
  rw [end?] at hend
  split at hend
  · exact (Store.follow_endUpTo? hend).imp' _ fun _ h => h
  · exact Option.some.inj hend ▸ .refl s _

end Node

namespace Addressed

variable {s : Store} {root : Holder} {n : Node} {ns : List Node} {gs : List Segment}

theorem reaches_end {v : Value} (himm : s.Reaches root.value (n.immediate s))
    (hend : n.end? s = some v) : s.Reaches root.value v := himm.trans (Node.reaches_end hend)

theorem reaches_immediate (h : Addressed s root ns gs) :
    ∀ n ∈ ns.head?, s.Reaches root.value (n.immediate s) := by
  induction h with
  | root =>
    rintro n ⟨⟩
    cases root <;> exact .refl ..
  | @slot n ns gs h name v index _ hend hentry hnode ih =>
    rintro _ ⟨⟩
    have hv := (reaches_end (ih n rfl) hend).slot hentry
    rw [Store.mem_slotNodes_iff] at hnode
    split at hnode
    · subst hnode
      rwa [Node.immediate_slot_whole hentry]
    · next items hitems =>
      obtain ⟨i, hi, rfl⟩ := hnode
      rw [Node.immediate_slot_element hentry hitems]
      exact hv.items (i := i) hitems (by simp [hi])
  | @item n ns gs name places l i label _ hend hi ih =>
    rintro _ ⟨⟩
    have hl := reaches_end (ih n rfl) hend
    rw [Node.immediate_item]
    exact hl.trans ⟨_, Store.follow_item (i := i) (by simp [hi])⟩

theorem reaches (h : Addressed s root (n :: ns) gs) {v : Value} (hend : n.end? s = some v) :
    s.Reaches root.value v :=
  reaches_end (h.reaches_immediate n rfl) hend

/-- The steps of an address are named like slots that can be reached. -/
theorem isName (h : Addressed s root ns gs) (hnames : s.NamesReached root.value) :
    ∀ g ∈ gs, Grammar.IsName g.name := by
  induction h with
  | root => simp
  | slot hn hend hentry _ ih =>
    intro g hg
    rcases List.mem_append.1 hg with hg | hg
    · exact ih g hg
    · obtain rfl := List.mem_singleton.1 hg
      exact hnames _ _ (hn.reaches hend)
        (Table.has_iff.1 (Table.has_iff_get?.2 ⟨_, hentry⟩))
  | @item n ns gs name places _ _ _ _ _ _ ih =>
    intro g hg
    rcases List.mem_append.1 hg with hg | hg
    · exact ih g (List.mem_append_left _ hg)
    · obtain rfl := List.mem_singleton.1 hg
      exact ih ⟨name, places⟩ (by simp)

end Addressed

theorem Addressed.linked {s : Store} {root : Holder} {ns : List Node} {gs : List Segment}
    (h : Addressed s root ns gs) : Linked s (root.value.node none) ns := by
  induction h with
  | root => exact .root (.inl rfl)
  | slot _ hend _ _ ih => exact .link hend ih
  | item _ hend _ ih => exact .link hend ih

/-! ## Moving between addresses -/

namespace Pointer

variable {s : Store} {root : Holder} {p q : Pointer}

/-- The pointer stands at an address. -/
def IsAddressed (s : Store) (root : Holder) (p : Pointer) : Prop :=
  ∃ gs, Addressed s root p.nodes gs

theorem IsAddressed.isPlain (h : IsAddressed s root p) : p.node.IsPlain :=
  h.choose_spec.isPlain

theorem IsAddressed.linked (h : IsAddressed s root p) :
    Linked s (root.value.node none) p.nodes := h.choose_spec.linked

theorem IsAddressed.not_isWholeCollection (h : IsAddressed s root p) :
    p.isWholeCollection s = false :=
  h.choose_spec.not_isWholeCollection

theorem IsAddressed.item {l i : Nat} (hp : IsAddressed s root p)
    (hend : p.node.end? s = some (.list l)) (hi : i < (s.lists.get l).length) :
    IsAddressed s root (p.item s l p.node.name? i) := by
  have hwhole := hp.not_isWholeCollection
  obtain ⟨gs, hp⟩ := hp
  obtain ⟨gs, name, places, rfl⟩ := hp.exists_last hend
  have hitem : p.item s l p.node.name? i =
      p.child s.now (.items l p.node.name? (.element i)) := by simp [Pointer.item, hwhole]
  rw [hitem]
  exact ⟨_, .item hp hend hi⟩

theorem IsChild.isAddressed (h : IsChild s p q) (hp : IsAddressed s root p) :
    IsAddressed s root q := by
  induction h with
  | @slot p h node hend hnode =>
    obtain ⟨gs, hp⟩ := hp
    obtain ⟨name, v, hentry, hnode⟩ := Store.mem_childNodes.1 hnode
    obtain ⟨index, rfl⟩ := Store.mem_slotNodes hnode
    exact ⟨_, .slot hp hend (Table.get?_eq_some_iff.2 hentry) hnode⟩
  | item hend hi _ ih => exact ih (hp.item hend hi)

theorem namespaces_eq (hp : p.node.IsPlain) :
    p.namespaces s .standard = (do let _ ← p.value s .standard; pure []) := by
  refine valuePointer_bind hp (fun q v h => ?_) fun q _ _ _ h => by rw [h]
  rw [h]
  cases v <;> rfl

/-- Moves lead from address to address. -/
theorem kept_isAddressed (s : Store) (root : Holder) :
    Kept s .standard (IsAddressed s root) where
  child hp h hq := (isChild_of_mem hp.isPlain h hq).isAddressed hp
  binding hp h hq := by
    rw [namespaces_eq hp.isPlain] at h
    obtain ⟨_, -, h⟩ := Except.bind_eq_ok_iff.1 h
    obtain rfl := Except.ok.inj h
    simp at hq
  parent hp h := by
    obtain ⟨gs, hp⟩ := hp
    rw [nodes_parent? h] at hp
    exact hp.tail
  element hp h := by
    rw [elements, if_neg (by simp [hp.not_isWholeCollection])] at h
    exact List.mem_singleton.1 h ▸ hp

theorem isAddressed_congr {t : Store} (ht : s.SameGraph t) :
    IsAddressed s root = IsAddressed t root := by
  funext p
  exact propext ⟨.imp fun _ h => h.congr ht, .imp fun _ h => h.congr ht.symm⟩

end Pointer

/-! ## Paths -/

namespace Grammar

/-- The text of an address: a slash alone for the root. -/
def addressText : List Segment → List Char
  | [] => ['/']
  | g :: gs => segmentsText (g :: gs)

theorem addressText_of_ne_nil {gs : List Segment} (h : gs ≠ []) :
    addressText gs = segmentsText gs := by
  cases gs with
  | nil => exact absurd rfl h
  | cons => rfl

/-- **The text of an address is parsed to its steps.** -/
theorem parse_addressText {gs : List Segment} (hgs : ∀ g ∈ gs, IsName g.name) :
    parse (String.ofList (addressText gs)) = .ok (.path .root (gs.map Segment.step)) := by
  cases gs with
  | nil => with_unfolding_all rfl
  | cons g gs => exact parse_segments (List.cons_ne_nil g gs) hgs

theorem addressText_append (gs : List Segment) (g : Segment) :
    addressText (gs ++ [g]) = segmentsText gs ++ g.text := by
  rw [addressText_of_ne_nil (by simp)]
  simp [segmentsText]

/-- The text can stand for the name of a step: its end is told by what follows it. -/
structure IsLabel (name : String) : Prop where
  ne_nil : name.toList ≠ []
  no_slash : '/' ∉ name.toList
  no_bracket : '[' ∉ name.toList

theorem IsName.isLabel {name : String} (h : IsName name) : IsLabel name where
  ne_nil := by
    obtain ⟨c, cs, hname, -⟩ := exists_cons_of_isName h
    simp [hname]
  no_slash := not_mem_of_isOutside h (by decide)
  no_bracket := not_mem_of_isOutside h (by decide)

/-- A step ends with a letter of its name or with a bracket. -/
theorem not_slash_of_getLast {g : Segment} (hg : IsLabel g.name) (gs : List Segment) :
    (addressText (gs ++ [g])).getLast? ≠ some '/' := by
  rw [addressText_append, Segment.text]
  rcases List.eq_nil_or_concat' g.places with hplaces | ⟨places, n, hplaces⟩
  · obtain ⟨c, cs, hname⟩ := List.exists_cons_of_ne_nil hg.ne_nil
    intro h
    refine hg.no_slash (List.mem_of_getLast? ?_)
    simpa [hplaces, hname, List.getLast?_append] using h
  · have hlast : placeText n = '[' :: Nat.toDigits 10 n ++ [']'] := rfl
    simp only [hplaces, List.flatMap_append, List.flatMap_cons, List.flatMap_nil, List.append_nil,
      hlast, ← List.append_assoc, ← List.cons_append, List.getLast?_concat]
    decide

end Grammar

namespace Node

open Grammar

variable {s : Store} {path : String} {gs : List Segment}

theorem endsWith_slash {path : String} :
    path.endsWith "/" = true ↔ path.toList.getLast? = some '/' := by
  rw [String.endsWith_eq_endsWith_toSlice, String.Slice.endsWith_string_iff]
  simp [List.singleton_suffix_iff_getLast?_eq_some]

theorem slashed_append {prior : List Char} (hpath : path.toList = prior ++ segmentsText gs)
    (hne : gs ≠ []) (hgs : ∀ g ∈ gs, IsLabel g.name) :
    (slashed path).toList = prior ++ segmentsText gs ++ ['/'] := by
  obtain ⟨gs, g, rfl⟩ := (List.eq_nil_or_concat' gs).resolve_left hne
  have hlast := not_slash_of_getLast (hgs g (by simp)) gs
  have hnonempty : segmentsText (gs ++ [g]) ≠ [] := by simp [segmentsText, Segment.text]
  rw [addressText_of_ne_nil hne] at hlast
  rw [slashed, if_neg fun h => hlast ?_, String.toList_append, hpath]
  · rfl
  · rw [endsWith_slash, hpath, List.getLast?_append] at h
    obtain ⟨c, hc⟩ := Option.ne_none_iff_exists'.1 (mt List.getLast?_eq_none_iff.1 hnonempty)
    rwa [hc] at h ⊢

theorem text_element (i : Nat) : (Index.element i).text.toList = placeText (i + 1) := by
  have hdigits : toString ((i : Int) + 1) = String.ofList (Nat.toDigits 10 (i + 1)) := rfl
  simp [Index.text, hdigits, placeText]

/-- The number behind the name of a slot is that of the item which the slot is. -/
theorem indexText_eq {h : Holder} {name : String} {v : Value} {index : Index} (isAttribute : Bool)
    (hentry : (s.slots h).get? name = some v)
    (hindex : index = .whole ∨ ∃ items, s.items? v = some items ∧ ∃ i : Nat, index = .element i) :
    (if (slot h (.bare name) index isAttribute).isCollection s then index.text else "").toList =
      index.places.flatMap placeText := by
  have hbase : (slot h (.bare name) index isAttribute).base s = v := by
    rw [base, ← Store.slot_eq hentry]
    rfl
  rw [isCollection, hbase]
  rcases hindex with rfl | ⟨items, hitems, i, rfl⟩
  · rw [show Index.whole.text = "" from rfl, ite_self]
    rfl
  · simpa [hitems, Index.places] using text_element i

end Node

namespace Addressed

open Grammar

variable {s : Store} {root : Holder} {ns : List Node} {gs : List Segment}

/-- The path of a chain is that of its root, with the text of its address behind it. -/
theorem foldr_pathBelow (h : Addressed s root ns gs) (hgs : ∀ g ∈ gs, IsName g.name)
    {above : String} {prior : List Char} (habove : (Node.slashed above).toList = prior ++ ['/'])
    {below : List Node} (hns : ns = below ++ [root.value.node none]) :
    let path := below.foldr (fun node path => node.pathBelow s path) above
    (Node.slashed path).toList = prior ++ segmentsText gs ++ ['/'] ∧
      (gs ≠ [] → path.toList = prior ++ segmentsText gs) := by
  induction h generalizing below with
  | root =>
    obtain rfl : below = [] := by simpa using congrArg List.length hns
    exact ⟨by simpa [segmentsText] using habove, absurd rfl⟩
  | @slot n ns gs h name v index _ _ hentry hnode ih =>
    obtain ⟨rest, rfl, hrest⟩ := (List.cons_eq_append_iff.1 hns).resolve_left (by simp)
    have hslashed := (ih (fun g hg => hgs g (List.mem_append_left _ hg)) hrest).1
    have hindex : index = .whole ∨ ∃ items, s.items? v = some items ∧ ∃ i : Nat,
        index = .element i := by
      rw [Store.mem_slotNodes_iff] at hnode
      split at hnode
      · exact .inl hnode
      · next items hitems =>
        obtain ⟨i, -, hi⟩ := hnode
        exact .inr ⟨items, hitems, i, hi⟩
    intro path
    have hpath : path.toList = prior ++ segmentsText (gs ++ [⟨name, index.places⟩]) := by
      rw [show path = _ from List.foldr_cons .., Node.pathBelow, String.toList_append,
        String.toList_append, hslashed, Node.indexText_eq false hentry hindex]
      simp [Node.label, QName.text, QName.bare, Segment.text, segmentsText]
    exact ⟨Node.slashed_append hpath (by simp) fun g hg => (hgs g hg).isLabel, fun _ => hpath⟩
  | @item n ns gs name places l i label hn _ _ ih =>
    obtain ⟨rest, rfl, hrest⟩ := (List.cons_eq_append_iff.1 hns).resolve_left (by simp)
    have hname : IsName name := hgs ⟨name, places ++ [i + 1]⟩ (by simp)
    have hgs' : ∀ g ∈ gs ++ [(⟨name, places⟩ : Segment)], IsName g.name := fun g hg => by
      rcases List.mem_append.1 hg with hg | hg
      · exact hgs g (List.mem_append_left _ hg)
      · exact List.mem_singleton.1 hg ▸ hname
    obtain ⟨hslashed, hpath⟩ := ih hgs' hrest
    replace hpath := hpath (by simp)
    generalize hfold : rest.foldr (fun node path => node.pathBelow s path) above = path
      at hslashed hpath
    -- the path before the number neither is empty nor ends with a slash
    have hends : path.endsWith "/" = false := by
      rw [Bool.eq_false_iff]
      intro h
      rw [Node.slashed, if_pos h, hpath] at hslashed
      simpa using congrArg List.length hslashed
    have hnonempty : path.isEmpty = false := by
      rw [Bool.eq_false_iff, ne_eq, String.isEmpty_iff]
      rintro rfl
      simp [segmentsText, Segment.text] at hpath
    intro path'
    have hpath' : path'.toList = prior ++ segmentsText (gs ++ [⟨name, places ++ [i + 1]⟩]) := by
      rw [show path' = _ from List.foldr_cons .., hfold, Node.pathBelow]
      · simp only [hnonempty, hends, Bool.false_eq_true, if_false, String.toList_append, hpath,
          Node.text_element]
        simp [Segment.text, segmentsText]
      · exact Index.noConfusion
    exact ⟨Node.slashed_append hpath' (by simp) fun g hg => (hgs g hg).isLabel, fun _ => hpath'⟩

/-- A chain at an address ends at the root. -/
theorem exists_append (h : Addressed s root ns gs) :
    ∃ below, ns = below ++ [root.value.node none] := by
  induction h with
  | root => exact ⟨[], rfl⟩
  | slot _ _ _ _ ih | item _ _ _ ih =>
    obtain ⟨below, h⟩ := ih
    exact ⟨_ :: below, congrArg _ h⟩

/-- The path of a chain at an address is the text of the address. -/
theorem pathBelow_eq (h : Addressed s root ns gs) (hgs : ∀ g ∈ gs, IsName g.name) :
    (ns.foldr (fun node path => node.pathBelow s path) "").toList = addressText gs := by
  obtain ⟨below, hns⟩ := h.exists_append
  have hroot : (root.value.node none).pathBelow s "" = "/" := by cases root <;> rfl
  have hslash : (Node.slashed "/").toList = [] ++ ['/'] := by
    rw [Node.slashed, if_pos (Node.endsWith_slash.2 rfl)]
    rfl
  have hpath := (h.foldr_pathBelow hgs hslash hns).2
  rw [hns, List.foldr_append, List.foldr_cons, List.foldr_nil, hroot]
  generalize hsteps : gs = steps at h
  cases h with
  | root =>
    obtain rfl : below = [] := by simpa using congrArg List.length hns
    simp [addressText]
  | slot | item =>
    rw [hpath (by simp [hsteps]), ← hsteps, addressText_of_ne_nil (by simp [hsteps])]
    rfl

/-- **The path of a pointer at an address is the text of the address.** -/
theorem path {p : Pointer} (h : Addressed s root p.nodes gs) (hgs : ∀ g ∈ gs, IsName g.name) :
    p.path s = String.ofList (addressText gs) := by
  rw [Pointer.path, ← h.pathBelow_eq hgs, String.ofList_toList]

/-- **The path of a pointer at an address is parsed to the steps of the address.** -/
theorem parse_path {p : Pointer} (h : Addressed s root p.nodes gs)
    (hgs : ∀ g ∈ gs, IsName g.name) :
    parse (p.path s) = .ok (.path .root (gs.map Segment.step)) := by
  rw [h.path hgs, parse_addressText hgs]

end Addressed

end PathQuery
