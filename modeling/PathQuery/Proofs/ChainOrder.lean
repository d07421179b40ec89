import PathQuery.Proofs.ChildChains
import PathQuery.Proofs.DocumentOrder

/-!
# The order of chains

Two chains part at the first level at which they go on differently. Whatever is found further down
one of them then comes before whatever is found further down the other, and a node comes before the
nodes below it.

* names: `Store.PartsBefore`, `Pointer.compare_of_partsBefore`, `Pointer.compare_of_suffix`.
* **`pairwise_childNodes`**: the slots of an object are listed in their order.
  **`pairwise_chainsUpTo`**: so are children, whatever lists they are taken from.
-/

namespace PathQuery

open Std

/-! ## Slots in their order -/

namespace Table

universe u

variable {α : Type u} (t : Table α)

theorem position?_getElem {i : Nat} (hi : i < t.entries.length) :
    t.position? (t.entries[i]).1 = some i := by
  have hlength : i < t.keys.length := by simpa [keys] using hi
  have hkey : t.keys[i] = (t.entries[i]).1 := by simp [keys]
  refine List.findIdx?_eq_some_iff_getElem.2 ⟨hlength, by simp [hkey], fun j hj => ?_⟩
  rw [← hkey, Bool.not_eq_true, beq_eq_false_iff_ne]
  intro heq
  have hnodup : t.keys.Nodup := t.nodup
  exact absurd ((hnodup.getElem_inj_iff).1 heq) hj.ne

/-- The names of a table stand in the order of their places. -/
theorem pairwise_position? :
    t.entries.Pairwise fun e e' => comparePlaces (t.position? e.1) (t.position? e'.1) = .lt := by
  rw [List.pairwise_iff_getElem]
  intro i j hi hj hij
  rw [t.position?_getElem hi, t.position?_getElem hj]
  exact Nat.compare_eq_lt.2 hij

end Table

namespace Store

variable {s t : Store} {ms ns ks ms' ns' : List Node}

theorem index_compare_lt {i j : Nat} (h : i < j) :
    (Index.element i).compare (.element j) = .lt := by
  have : Ord.compare (i : Int) (j : Int) = .lt := Int.compare_eq_lt.2 (by omega)
  exact this

theorem pairwise_slotNodes (h : Holder) (name : String) (v : Value) :
    (s.slotNodes h name v).Pairwise fun a b => a.compareSiblings s b = .lt := by
  rw [slotNodes]
  split
  · refine List.pairwise_map.2 (List.pairwise_lt_range.imp fun {i j} hij => ?_)
    have hplaces (o : Option Nat) : comparePlaces o o = .eq := comparePlaces_eq_iff.2 rfl
    simp [Node.compareSiblings, Node.isAttribute, compareBool, Node.position?, hplaces,
      Node.index, index_compare_lt hij]
  · exact List.pairwise_singleton ..

/-- **The slots of an object are listed in their order.** -/
theorem pairwise_childNodes (h : Holder) :
    (s.childNodes h).Pairwise fun a b => a.compareSiblings s b = .lt := by
  refine List.pairwise_flatMap.2 ⟨fun e _ => pairwise_slotNodes h e.1 e.2, ?_⟩
  refine (s.slots h).pairwise_position?.imp fun {e e'} hplaces a ha b hb => ?_
  obtain ⟨index, rfl⟩ := mem_slotNodes ha
  obtain ⟨index', rfl⟩ := mem_slotNodes hb
  simp [Node.compareSiblings, Node.isAttribute, compareBool, Node.position?, QName.text,
    QName.bare, hplaces]

/-! ## Chains that part -/

/-- The chains part below one node, and the first goes on before the second. -/
def PartsBefore (s : Store) (ms ns : List Node) : Prop :=
  ∃ a b ks, a :: ks <:+ ms ∧ b :: ks <:+ ns ∧ a.compareSiblings s b = .lt

theorem PartsBefore.extend (h : s.PartsBefore ms ns) (hm : ms <:+ ms') (hn : ns <:+ ns') :
    s.PartsBefore ms' ns' := by
  obtain ⟨a, b, ks, ha, hb, hlt⟩ := h
  exact ⟨a, b, ks, ha.trans hm, hb.trans hn, hlt⟩

theorem partsBefore_cons {a b : Node} (h : a.compareSiblings s b = .lt) (ks : List Node) :
    s.PartsBefore (a :: ks) (b :: ks) := ⟨a, b, ks, List.suffix_rfl, List.suffix_rfl, h⟩

/-- Suffixes of one chain are suffixes of each other. -/
theorem cons_suffix_of_length_lt {a b : Node} {as bs : List Node} (ha : a :: as <:+ ns)
    (hb : b :: bs <:+ ns) (h : as.length < bs.length) : a :: as <:+ bs := by
  have hlength : (a :: as).length ≤ bs.length := h
  exact List.suffix_of_suffix_length_le ha ((List.suffix_cons b bs).trans hb) hlength

theorem PartsBefore.trans (h : s.PartsBefore ms ns) (h' : s.PartsBefore ns ks) :
    s.PartsBefore ms ks := by
  obtain ⟨a, b, is, ha, hb, hab⟩ := h
  obtain ⟨b', c, js, hb', hc, hbc⟩ := h'
  rcases Nat.lt_trichotomy is.length js.length with hlt | heq | hgt
  · have hsuffix := (cons_suffix_of_length_lt hb hb' hlt).trans (List.suffix_cons c js)
    exact ⟨a, b, is, ha, hsuffix.trans hc, hab⟩
  · have hsame : b :: is = b' :: js :=
      (List.suffix_of_suffix_length_le hb hb' (by simp [heq])).eq_of_length (by simp [heq])
    obtain ⟨rfl, rfl⟩ := List.cons.inj hsame
    exact ⟨a, c, is, ha, hc, TransCmp.lt_trans hab hbc⟩
  · have hsuffix := (cons_suffix_of_length_lt hb' hb hgt).trans (List.suffix_cons a is)
    exact ⟨b', c, js, hsuffix.trans ha, hc, hbc⟩

theorem not_partsBefore_self (ns : List Node) : ¬s.PartsBefore ns ns := by
  rintro ⟨a, b, ks, ha, hb, hlt⟩
  have hsame : a :: ks = b :: ks :=
    (List.suffix_of_suffix_length_le ha hb (by simp)).eq_of_length (by simp)
  obtain ⟨rfl, -⟩ := List.cons.inj hsame
  have hself : a.compareSiblings s a = .eq := ReflCmp.compare_self
  simp [hself] at hlt

theorem SameGraph.position? (ht : s.SameGraph t) (n : Node) : n.position? t = n.position? s := by
  cases n <;> simp only [Node.position?, ht.slots]

theorem SameGraph.compareSiblings (ht : s.SameGraph t) (a b : Node) :
    a.compareSiblings t b = a.compareSiblings s b := by
  simp only [Node.compareSiblings, ht.position?]

theorem SameGraph.partsBefore (ht : s.SameGraph t) : t.PartsBefore = s.PartsBefore := by
  funext ms ns
  simp only [PartsBefore, ht.compareSiblings]

/-! ## Children in their order -/

theorem flatten_of_mapM {α β : Type} {f : α → Option (List β)} {as : List α} {bss : List (List β)}
    (h : as.mapM f = some bss) :
    bss.flatten = as.flatMap (fun a => (f a).getD []) ∧ ∀ a ∈ as, (f a).isSome := by
  induction as generalizing bss with
  | nil =>
    obtain rfl : [] = bss := Option.some.inj h
    simp
  | cons a as ih =>
    rw [List.mapM_cons] at h
    obtain ⟨bs, hbs, h⟩ := Option.bind_eq_some_iff.1 h
    obtain ⟨bss', hbss, h⟩ := Option.bind_eq_some_iff.1 h
    obtain rfl := Option.some.inj h
    obtain ⟨hflat, hsome⟩ := ih hbss
    simpa [hbs, hflat] using hsome

/-- The chains part in their order, and all of them go on from one chain. -/
structure Branches (s : Store) (ns : List Node) (css : List (List Node)) : Prop where
  pairwise : css.Pairwise s.PartsBefore
  suffix {ms : List Node} (h : ms ∈ css) : ns <:+ ms

theorem branches_nil (ns : List Node) : s.Branches ns [] := ⟨.nil, nofun⟩

theorem branches_belowWith {inner : List Node → Option (List (List Node))}
    {css : List (List Node)} (hinner : ∀ {ns css}, inner ns = some css → s.Branches ns css)
    (h : chainView.belowWith s inner ns = some css) : s.Branches ns css := by
  obtain ⟨v, -, h⟩ := Option.bind_eq_some_iff.1 h
  have hslots (hcss : ((v.holder?.map s.childNodes).getD []).map (· :: ns) = css) :
      s.Branches ns css := by
    subst hcss
    cases v.holder? with
    | none => exact branches_nil ns
    | some h =>
      constructor
      · exact List.pairwise_map.2 ((pairwise_childNodes h).imp fun hlt => partsBefore_cons hlt ns)
      · intro ms hms
        obtain ⟨node, -, rfl⟩ := List.mem_map.1 hms
        exact List.suffix_cons node ns
  cases v with
  | list l =>
    obtain ⟨csss, hcsss, h⟩ := Option.bind_eq_some_iff.1 h
    obtain rfl := Option.some.inj h
    obtain ⟨hflat, -⟩ := flatten_of_mapM hcsss
    rw [hflat, List.flatMap_map]
    have hitem (i : Nat) :
        s.Branches (chainView.item s ns l i) ((inner (chainView.item s ns l i)).getD []) := by
      cases hi : inner (chainView.item s ns l i) with
      | none => exact branches_nil _
      | some css => exact hinner hi
    constructor
    · refine List.pairwise_flatMap.2 ⟨fun i _ => (hitem i).pairwise, ?_⟩
      refine List.pairwise_lt_range.imp fun {i j} hij ms hms ms' hms' => ?_
      have hparts : s.PartsBefore (chainView.item s ns l i) (chainView.item s ns l j) := by
        refine partsBefore_cons ?_ ns
        simp [Node.compareSiblings, Node.isAttribute, compareBool, Node.position?, comparePlaces,
          Node.index, index_compare_lt hij]
      exact hparts.extend ((hitem i).suffix hms) ((hitem j).suffix hms')
    · intro ms hms
      obtain ⟨i, -, hms⟩ := List.mem_flatMap.1 hms
      exact (List.suffix_cons _ ns).trans ((hitem i).suffix hms)
  | _ => exact hslots (Option.some.inj h)

/-- **Children part in their order**, whatever lists they are taken from. -/
theorem pairwise_chainsUpTo {n : Nat} {css : List (List Node)} (h : s.chainsUpTo n ns = some css) :
    s.Branches ns css := by
  induction n generalizing ns css with
  | zero => exact branches_belowWith (fun h => Option.some.inj h ▸ branches_nil _) h
  | succ n ih => exact branches_belowWith ih h

end Store

/-! ## Pointers -/

namespace Pointer

variable {s : Store} {r : Node} {p q : Pointer}

theorem getLast?_nodes (p : Pointer) : p.nodes.getLast? = some p.root := by
  rw [nodes, List.getLast?_map, List.getLast?_eq_some_getLast (by simp [chain])]
  rfl

/-- Chains from one root are ordered level by level from the root on. -/
theorem compare_eq_compareLex (hp : Linked s r p.nodes) (hq : Linked s r q.nodes)
    (hroot : p.root = q.root) :
    p.compare s q = .ok (List.compareLex (Node.compareSiblings s) p.lineage q.lineage) := by
  obtain ⟨n, ns, hn⟩ := List.exists_cons_of_ne_nil p.lineage_ne_nil
  obtain ⟨m, ms, hm⟩ := List.exists_cons_of_ne_nil q.lineage_ne_nil
  have hnm : n = m := by simpa only [root_eq_head, hn, hm, List.head_cons] using hroot
  have hindex : m.index.compare m.index = .eq := ReflCmp.compare_self
  have hnode : m.compareSiblings s m = .eq := ReflCmp.compare_self
  rw [compare_of_linked hp hq, compareLineages]
  simp only [root_eq_head, hn, hm, List.head_cons, List.tail_cons, hnm, hindex,
    List.compareLex_cons_cons, hnode, Ordering.eq_then]

theorem compare_of_partsBefore (hp : Linked s r p.nodes) (hq : Linked s r q.nodes)
    (hroot : p.root = q.root) (h : s.PartsBefore p.nodes q.nodes) : p.compare s q = .ok .lt := by
  obtain ⟨a, b, ks, ⟨as, ha⟩, ⟨bs, hb⟩, hlt⟩ := h
  rw [compare_eq_compareLex hp hq hroot, lineage_eq, lineage_eq, ← ha, ← hb]
  simp only [List.reverse_append, List.reverse_cons, List.append_assoc, compareLex_append]
  simp only [List.cons_append, List.nil_append, List.compareLex_cons_cons, hlt, Ordering.lt_then]

/-- A node comes before the nodes below it. -/
theorem compare_of_suffix (hp : Linked s r p.nodes) (hq : Linked s r q.nodes)
    (hroot : p.root = q.root) (h : p.nodes <:+ q.nodes) (hne : p.nodes ≠ q.nodes) :
    p.compare s q = .ok .lt := by
  obtain ⟨as, ha⟩ := h
  obtain ⟨b, bs, hbs⟩ : ∃ b bs, as.reverse = b :: bs := by
    refine List.exists_cons_of_ne_nil fun hnil => hne ?_
    rw [← ha, List.reverse_eq_nil_iff.1 hnil, List.nil_append]
  have hlex := compareLex_append (s := s) p.nodes.reverse [] (b :: bs)
  rw [List.append_nil, List.compareLex_nil_cons] at hlex
  rw [compare_eq_compareLex hp hq hroot, lineage_eq, lineage_eq, ← ha, List.reverse_append, hbs,
    hlex]

end Pointer

end PathQuery
