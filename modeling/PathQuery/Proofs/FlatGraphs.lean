import PathQuery.Proofs.Addresses

/-!
# Graphs without lists in lists

If no list is an item of a list, a chain at an address is told by its path: the path names every
slot of the chain, and the index of a slot that holds a list is the only number behind its name.

* names: `Grammar.eq_of_addressText_eq`, `Store.FlatLists`, `Pointer.children_eq_of_flat`.
* **`Pointer.nodes_eq_iff_path_eq`**: pointers at addresses have one path just if they have one
  chain. Lists of any length are told apart, since paths are compared as texts.
-/

open PathQuery.Parser

namespace PathQuery

/-! ## Addresses as texts -/

namespace Grammar

/-- A text is cut in one way before the first character that fails a test. -/
theorem append_inj_of_test {test : Char → Bool} {as bs cs ds : List Char}
    (ha : ∀ c ∈ as, test c = true) (hb : ∀ c ∈ bs, test c = true)
    (hc : ∀ c ∈ cs.head?, test c = false) (hd : ∀ c ∈ ds.head?, test c = false)
    (h : as ++ cs = bs ++ ds) : as = bs ∧ cs = ds := by
  have htake := (takeWhile_append_of_head as hc).1
  rw [h, (takeWhile_append_of_head bs hd).1, List.takeWhile_eq_self_iff.2 ha,
    List.takeWhile_eq_self_iff.2 hb] at htake
  subst htake
  exact ⟨rfl, List.append_cancel_left h⟩

theorem toDigits_inj {n m : Nat} (h : Nat.toDigits 10 n = Nat.toDigits 10 m) : n = m := by
  rw [← Number.digitsValue_toDigits n, h, Number.digitsValue_toDigits]

theorem placesText_inj {ns ms : List Nat} (h : ns.flatMap placeText = ms.flatMap placeText) :
    ns = ms := by
  have hdigit (n : Nat) : ∀ c ∈ Nat.toDigits 10 n, c.isDigit = true := fun c hc =>
    Nat.isDigit_of_mem_toDigits (by omega) (by omega) hc
  induction ns generalizing ms with
  | nil =>
    cases ms with
    | nil => rfl
    | cons m ms => simp [placeText] at h
  | cons n ns ih =>
    cases ms with
    | nil => simp [placeText] at h
    | cons m ms =>
      simp only [List.flatMap_cons, placeText, List.cons_append, List.append_assoc,
        List.cons.injEq, true_and] at h
      obtain ⟨hn, hrest⟩ := append_inj_of_test (hdigit n) (hdigit m) (by simp) (by simp) h
      obtain rfl := toDigits_inj hn
      rw [ih (by simpa using hrest)]

/-- The text of a name is not mistaken for the numbers behind it. -/
theorem segment_inj {g g' : Segment} (hg : IsLabel g.name) (hg' : IsLabel g'.name)
    (h : g.text = g'.text) : g = g' := by
  have hname {name : String} (hn : IsLabel name) : ∀ c ∈ name.toList, (c != '[') = true := by
    intro c hc
    rw [bne_iff_ne]
    rintro rfl
    exact hn.no_bracket hc
  have hplaces (places : List Nat) :
      ∀ c ∈ (places.flatMap placeText).head?, (c != '[') = false := by
    intro c hc
    cases places with
    | nil => simp at hc
    | cons n places => simpa [placeText] using hc.symm
  obtain ⟨name, places⟩ := g
  obtain ⟨name', places'⟩ := g'
  simp only [Segment.text, List.cons.injEq, true_and] at h
  obtain ⟨hn, hp⟩ := append_inj_of_test (hname hg) (hname hg') (hplaces _) (hplaces _) h
  obtain rfl := String.toList_inj.1 hn
  obtain rfl := placesText_inj hp
  rfl

theorem segmentsText_inj {gs gs' : List Segment} (hgs : ∀ g ∈ gs, IsLabel g.name)
    (hgs' : ∀ g ∈ gs', IsLabel g.name) (h : segmentsText gs = segmentsText gs') : gs = gs' := by
  have hbody {g : Segment} (hg : IsLabel g.name) :
      ∀ c ∈ g.name.toList ++ g.places.flatMap placeText, (c != '/') = true := by
    intro c hc
    rw [bne_iff_ne]
    rintro rfl
    rcases List.mem_append.1 hc with hc | hc
    · exact hg.no_slash hc
    · exact not_mem_places g.places (by decide) (by decide) hc
  have honward (gs : List Segment) : ∀ c ∈ (segmentsText gs).head?, (c != '/') = false :=
    fun c hc => by simpa using onward_segmentsText gs c hc
  induction gs generalizing gs' with
  | nil =>
    cases gs' with
    | nil => rfl
    | cons g' gs' => simp [segmentsText, Segment.text] at h
  | cons g gs ih =>
    cases gs' with
    | nil => simp [segmentsText, Segment.text] at h
    | cons g' gs' =>
      have hg := hgs g (List.mem_cons_self ..)
      have hg' := hgs' g' (List.mem_cons_self ..)
      have h : g.text ++ segmentsText gs = g'.text ++ segmentsText gs' := h
      simp only [Segment.text, List.cons_append, List.cons.injEq, true_and] at h
      obtain ⟨hhead, htail⟩ :=
        append_inj_of_test (hbody hg) (hbody hg') (honward gs) (honward gs') h
      have htext : g.text = g'.text := by rw [Segment.text, Segment.text, hhead]
      rw [segment_inj hg hg' htext, ih (fun g hg => hgs g (List.mem_cons_of_mem _ hg))
        (fun g hg => hgs' g (List.mem_cons_of_mem _ hg)) htail]

/-- **Addresses are told apart by their texts.** -/
theorem eq_of_addressText_eq {gs gs' : List Segment} (hgs : ∀ g ∈ gs, IsLabel g.name)
    (hgs' : ∀ g ∈ gs', IsLabel g.name) (h : addressText gs = addressText gs') : gs = gs' := by
  -- The root is a slash alone, and behind the slash of a step stands its name.
  have hroot {g : Segment} (hg : IsLabel g.name) (gs : List Segment) :
      segmentsText (g :: gs) ≠ ['/'] := by
    obtain ⟨c, cs, hname⟩ := List.exists_cons_of_ne_nil hg.ne_nil
    simp [segmentsText, Segment.text, hname]
  cases gs with
  | nil =>
    cases gs' with
    | nil => rfl
    | cons g' gs' => exact absurd h.symm (hroot (hgs' g' (List.mem_cons_self ..)) gs')
  | cons g gs =>
    cases gs' with
    | nil => exact absurd h (hroot (hgs g (List.mem_cons_self ..)) gs)
    | cons g' gs' => exact segmentsText_inj hgs hgs' h

end Grammar

/-! ## Flat lists -/

namespace Store

/-- No list that can be reached has an item that is a list, in cells or not. -/
def FlatLists (s : Store) (root : Value) : Prop :=
  ∀ l v, s.Reaches root (.list l) → v ∈ s.lists.get l → s.items? v = none

theorem FlatLists.congr {s t : Store} {root : Value} (h : s.FlatLists root)
    (ht : s.SameGraph t) : t.FlatLists root := by
  simpa only [FlatLists, ht.reaches, ht.lists, ht.items?] using h

/-- The slots of one object are told apart by their names and numbers. -/
theorem slot_eq_of_places {s : Store} {n : Node} {h h' : Holder} {name : String} {v v' : Value}
    {index index' : Index} (hend : n.end? s = some h.value) (hend' : n.end? s = some h'.value)
    (hentry : (s.slots h).get? name = some v) (hentry' : (s.slots h').get? name = some v')
    (hnode : .slot h (.bare name) index false ∈ s.slotNodes h name v)
    (hnode' : .slot h' (.bare name) index' false ∈ s.slotNodes h' name v')
    (hplaces : index.places = index'.places) :
    Node.slot h (.bare name) index false = .slot h' (.bare name) index' false := by
  obtain rfl := Holder.value_injective (Option.some.inj (hend.symm.trans hend'))
  obtain rfl : v = v' := Option.some.inj (hentry.symm.trans hentry')
  -- Both indices are whole, or both are those of elements.
  rw [mem_slotNodes_iff] at hnode hnode'
  split at hnode
  · next hnone =>
    simp only [hnone] at hnode'
    rw [hnode, hnode']
  · next items hsome =>
    simp only [hsome] at hnode'
    obtain ⟨i, -, rfl⟩ := hnode
    obtain ⟨j, -, rfl⟩ := hnode'
    simp only [Index.places, List.cons.injEq, and_true] at hplaces
    rw [show i = j by omega]

end Store

namespace Addressed

variable {s : Store} {root : Holder} {n : Node} {ns ns' : List Node} {gs : List Segment}

/-- **In a flat graph no chain at an address ends at a list.** -/
theorem end?_ne_list (hflat : s.FlatLists root.value) (h : Addressed s root (n :: ns) gs)
    (l : Nat) : n.end? s ≠ some (.list l) := by
  intro hend
  cases h with
  | root => cases root <;> simp [Holder.value, Value.node, Node.end?, Node.isLink, Node.immediate,
      Node.base, Node.index, Store.select] at hend
  | @slot n ns gs h name v index hn hend' hentry hnode =>
    have hitems := Store.items?_of_endUpTo? ((Node.end?_slot index).symm.trans hend)
    rw [Store.mem_slotNodes_iff] at hnode
    split at hnode
    · next hnone =>
      subst hnode
      rw [Node.immediate_slot_whole hentry, hnone] at hitems
      simp at hitems
    · next items hsome =>
      obtain ⟨i, hi, rfl⟩ := hnode
      obtain ⟨l', hl', rfl⟩ := Store.items?_eq_some_iff.1 hsome
      have hv := (hn.reaches hend').slot hentry
      rw [Node.immediate_slot_element hentry hsome, List.getElem?_eq_getElem hi,
        Option.getD_some, hflat l' _ (hl' ▸ hv.unwrap) (List.getElem_mem hi)] at hitems
      simp at hitems
  | @item n ns gs name places l' i label hn hend' hi =>
    have hend'' : s.endUpTo? (Store.maxIndirections - 1)
        ((Node.items l' label (.element i)).immediate s) = some (.list l) := hend
    have hitems := Store.items?_of_endUpTo? hend''
    rw [Node.immediate_item, List.getElem?_eq_getElem hi, Option.getD_some,
      hflat l' _ (hn.reaches hend') (List.getElem_mem hi)] at hitems
    simp at hitems

/-- **In a flat graph an address leads to one chain.** -/
theorem nodes_eq (hflat : s.FlatLists root.value) (h : Addressed s root ns gs)
    (h' : Addressed s root ns' gs) : ns = ns' := by
  induction h generalizing ns' with
  | root =>
    generalize hgs : ([] : List Segment) = gs' at h'
    cases h' with
    | root => rfl
    | slot => simp at hgs
    | item => simp at hgs
  | @slot n ns gs h name v index hn hend hentry hnode ih =>
    generalize hgs : gs ++ [⟨name, index.places⟩] = gs' at h'
    cases h' with
    | root => simp at hgs
    | @slot n' ns' gs' h' name' v' index' hn' hend' hentry' hnode' =>
      obtain ⟨rfl, hlast⟩ := List.append_inj' hgs rfl
      simp only [List.cons.injEq, Segment.mk.injEq, and_true] at hlast
      obtain ⟨rfl, hplaces⟩ := hlast
      obtain ⟨rfl, rfl⟩ := List.cons.inj (ih hn')
      rw [Store.slot_eq_of_places hend hend' hentry hentry' hnode hnode' hplaces]
    | item hn' hend' => exact absurd hend' (hn'.end?_ne_list hflat _)
  | item hn hend => exact absurd hend (hn.end?_ne_list hflat _)

end Addressed

/-! ## Pointers in flat graphs -/

namespace Pointer

variable {s t : Store} {root : Holder} {p q : Pointer} {cs : List Pointer}

/-- **Pointers at addresses have one path just if they have one chain.** -/
theorem nodes_eq_iff_path_eq (hnames : s.NamesReached root.value) (hflat : s.FlatLists root.value)
    (hp : IsAddressed s root p) (hq : IsAddressed s root q) :
    p.nodes = q.nodes ↔ p.path s = q.path s := by
  refine ⟨fun h => by rw [path, path, h], fun h => ?_⟩
  obtain ⟨gs, hp⟩ := hp
  obtain ⟨gs', hq⟩ := hq
  rw [hp.path (hp.isName hnames), hq.path (hq.isName hnames), String.ofList_inj] at h
  obtain rfl := Grammar.eq_of_addressText_eq (fun g hg => (hp.isName hnames g hg).isLabel)
    (fun g hg => (hq.isName hnames g hg).isLabel) h
  exact hp.nodes_eq hflat hq

/-- In a flat graph the children of a pointer are those of the object that it leads to. -/
theorem children_eq_of_flat (hflat : s.FlatLists root.value) (hp : IsAddressed s root p)
    (h : p.children s .standard = .ok cs) :
    ∃ v, p.node.end? s = some v ∧
      cs = ((v.holder?.map s.childNodes).getD []).map (p.child s.now) := by
  obtain ⟨inner, hinner⟩ : ∃ inner, p.children s .standard = p.childrenWith s .standard inner := by
    rw [children]
    cases s.lists.size with
    | zero => exact ⟨_, rfl⟩
    | succ n => exact ⟨_, rfl⟩
  rw [hinner, childrenWith_eq hp.isPlain] at h
  obtain ⟨v, hv, h⟩ := Except.bind_eq_ok_iff.1 h
  rw [value_eq_ok_iff hp.isPlain] at hv
  refine ⟨v, hv, ?_⟩
  cases v with
  | list l =>
    obtain ⟨gs, hp⟩ := hp
    exact absurd hv (hp.end?_ne_list hflat l)
  | _ => exact (Except.ok.inj h).symm

end Pointer

end PathQuery
