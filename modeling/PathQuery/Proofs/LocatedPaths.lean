import PathQuery.Proofs.DocumentOrder
import PathQuery.Proofs.FlatGraphs
import PathQuery.Proofs.Locations

/-!
# Paths and the order of located chains

The path of a chain of slots, attributes and items tells the chain: each of them puts something of
its own into the path, lists in lists and the items of a list at the root among them. Document order
tells the chains apart as well, for it goes by what stands below each node.

* names: `Node.chainOrder`; `Grammar.label_inj`, `Located.text`, `Located.nodes_eq`,
  `Located.eq_of_forall₂`.
* **`nodes_eq_iff_path_eq_of_isLocated`**: located pointers have one path just if they have one
  chain. **`compareLineages_eq_iff`**: they are level in document order just if they have one chain.
-/

namespace PathQuery

/-! ## Labels -/

namespace Grammar

variable {name name' : String} {a a' : Bool}

theorem toList_label (name : String) (a : Bool) :
    (Node.label (.bare name) a).toList = (if a then ['@'] else []) ++ name.toList := by
  cases a
  · rfl
  · exact String.toList_append ..

/-- The name of a slot can stand in a path, marked as an attribute or not. -/
theorem isLabel_label (h : IsName name) (a : Bool) : IsLabel (Node.label (.bare name) a) := by
  obtain ⟨hne, hslash, hbracket⟩ := h.isLabel
  constructor <;> rw [toList_label] <;> cases a <;> simp [hne, hslash, hbracket]

/-- The number of an item of a list at the root stands behind a dot. -/
theorem isLabel_dot : IsLabel "." where
  ne_nil := by decide
  no_slash := by decide
  no_bracket := by decide

/-- Labels tell names and attributes apart. -/
theorem label_inj (h : IsName name) (h' : IsName name')
    (heq : Node.label (.bare name) a = Node.label (.bare name') a') : name = name' ∧ a = a' := by
  have hno {name : String} (h : IsName name) : '@' ∉ name.toList :=
    not_mem_of_isOutside h (by decide)
  have htext := congrArg String.toList heq
  rw [toList_label, toList_label] at htext
  cases a <;> cases a'
  · exact ⟨String.toList_inj.1 htext, rfl⟩
  · have htext : name.toList = '@' :: name'.toList := htext
    exact absurd (htext ▸ List.mem_cons_self) (hno h)
  · have htext : '@' :: name.toList = name'.toList := htext
    exact absurd (htext ▸ List.mem_cons_self) (hno h')
  · exact ⟨String.toList_inj.1 (List.cons.inj htext).2, rfl⟩

/-- The dot is the label of no slot. -/
theorem label_ne_dot (h : IsName name) (a : Bool) : Node.label (.bare name) a ≠ "." := by
  intro heq
  have htext := congrArg String.toList heq
  rw [toList_label] at htext
  obtain ⟨c, cs, hname, hc⟩ := exists_cons_of_isName h
  cases a
  · obtain ⟨rfl, -⟩ := List.cons.inj (hname.symm.trans htext)
    revert hc
    decide
  · cases (List.cons.inj htext).1

theorem slashed_of_addressText {path : String} {gs : List Segment}
    (hpath : path.toList = addressText gs) (hgs : ∀ g ∈ gs, IsLabel g.name) :
    (Node.slashed path).toList = segmentsText gs ++ ['/'] := by
  by_cases hne : gs = []
  · subst hne
    rw [Node.slashed, if_pos (Node.endsWith_slash.2 (by rw [hpath]; rfl)), hpath]
    rfl
  · rw [addressText_of_ne_nil hne] at hpath
    have hpath : path.toList = [] ++ segmentsText gs := hpath
    exact Node.slashed_append hpath hne hgs

end Grammar

/-! ## The path of a chain -/

/-- Steps are the same if all are, and the last one is by its parts. -/
theorem Segment.of_concat (gs gs' : List Segment) {name name' : String} {places places' : List Nat}
    (h : gs ++ [⟨name, places⟩] = gs' ++ [⟨name', places'⟩]) :
    gs = gs' ∧ name = name' ∧ places = places' := by
  obtain ⟨rfl, hlast⟩ := List.append_inj' h rfl
  obtain ⟨rfl, rfl⟩ := Segment.mk.inj (List.cons.inj hlast).1
  exact ⟨rfl, rfl, rfl⟩

namespace Located

open Grammar

variable {s : Store} {root : Value} {ns ns' : List Node} {gs gs' : List Segment}

/-- **The path of a located chain is the text of its steps.** -/
theorem text (h : Located s root ns gs) (hnames : s.NamesReached root) :
    (∀ g ∈ gs, IsLabel g.name) ∧
      (ns.foldr (fun node path => node.pathBelow s path) "").toList = addressText gs := by
  induction h with
  | @object h =>
    have hroot : (h.value.node none).pathBelow s "" = "/" := by cases h <;> rfl
    exact ⟨by simp, by simp [hroot, addressText]⟩
  | @list l =>
    have hroot : (Node.items l none .whole).pathBelow s "" = "/" := rfl
    exact ⟨by simp, by simp [hroot, addressText]⟩
  | @rootItem l i =>
    have hroot : (Node.items l none (.element i)).pathBelow s "" =
        (if ("/" : String).endsWith "/" then "/" ++ "." else "/") ++ (Index.element i).text := rfl
    rw [if_pos (Node.endsWith_slash.2 rfl)] at hroot
    refine ⟨by simpa using isLabel_dot, ?_⟩
    simp [hroot, Node.text_element, addressText, segmentsText, Segment.text]
  | @slot n ns gs h name v index a hn hend hentry hindex ih =>
    obtain ⟨hlabels, hpath⟩ := ih
    have hlabel := isLabel_label (hn.isName hnames hend hentry) a
    refine ⟨fun g hg => ?_, ?_⟩
    · rcases List.mem_append.1 hg with hg | hg
      · exact hlabels g hg
      · exact List.mem_singleton.1 hg ▸ hlabel
    · rw [List.foldr_cons, Node.pathBelow, String.toList_append, String.toList_append,
        slashed_of_addressText hpath hlabels, Node.indexText_eq a hentry hindex.index_cases,
        addressText_append]
      simp [Segment.text]
  | @item n ns gs name places l i hn hindex hend hi ih =>
    obtain ⟨hlabels, hpath⟩ := ih
    have hlabel : IsLabel name := hlabels ⟨name, places⟩ (by simp)
    refine ⟨fun g hg => ?_, ?_⟩
    · rcases List.mem_append.1 hg with hg | hg
      · exact hlabels g (List.mem_append_left _ hg)
      · exact List.mem_singleton.1 hg ▸ hlabel
    · -- The path before the number neither is empty nor ends with a slash.
      rw [List.foldr_cons]
      generalize (n :: ns).foldr (fun node path => node.pathBelow s path) "" = path at hpath ⊢
      have hends : path.endsWith "/" = false := by
        rw [Bool.eq_false_iff, ne_eq, Node.endsWith_slash, hpath]
        exact not_slash_of_getLast hlabel gs
      have hnonempty : path.isEmpty = false := by
        rw [Bool.eq_false_iff, ne_eq, String.isEmpty_iff]
        rintro rfl
        simp [addressText_append, Segment.text] at hpath
      simp only [Node.pathBelow, hnonempty, hends, Bool.false_eq_true, if_false,
        String.toList_append, hpath, Node.text_element, addressText_append]
      simp [Segment.text]

/-- Slots of one object at indices that there are are told apart by their numbers. -/
theorem index_eq_of_places {v : Value} {index index' : Index} {a : Bool}
    (h : s.HasIndex v a index) (h' : s.HasIndex v a index')
    (hplaces : index.places = index'.places) : index = index' := by
  cases index <;> cases index'
  · rfl
  · cases hplaces
  · cases hplaces
  · obtain ⟨-, -, i, -, rfl⟩ := h
    obtain ⟨-, -, j, -, rfl⟩ := h'
    simp only [Index.places, List.cons.injEq, and_true] at hplaces
    rw [show i = j by omega]

/-- An item has numbers behind the name of its list. -/
theorem exists_places {n : Node} {name : String} {places : List Nat}
    (h : Located s root (n :: ns) (gs ++ [⟨name, places⟩])) (hindex : n.index ≠ .whole) :
    places ≠ [] := by
  obtain ⟨gs', name', places', heq, hne⟩ := h.places_ne_nil hindex
  obtain ⟨-, -, rfl⟩ := Segment.of_concat _ _ heq
  exact hne

/-- The numbers of an item are more than those of a slot. -/
theorem ne_places {n : Node} {name : String} {places places' : List Nat} {i : Nat}
    (h : Located s root (n :: ns) (gs ++ [⟨name, places⟩])) (hindex : n.index ≠ .whole)
    (hlength : places'.length ≤ 1) : places ++ [i] ≠ places' := by
  rintro rfl
  obtain ⟨k, ks, hplaces⟩ := List.exists_cons_of_ne_nil (h.exists_places hindex)
  simp [hplaces] at hlength

/-- **The steps of a located chain tell the chain.** -/
theorem nodes_eq (hnames : s.NamesReached root) (h : Located s root ns gs)
    (h' : Located s root ns' gs) : ns = ns' := by
  induction h generalizing ns' with
  | @object h hroot =>
    generalize hgs : ([] : List Segment) = gs' at h'
    cases h' with
    | object hroot' => rw [hroot.symm.trans hroot']
    | list hroot' => exact absurd (hroot.symm.trans hroot') (h.value_ne_list _)
    | rootItem | slot | item => simp at hgs
  | list hroot =>
    generalize hgs : ([] : List Segment) = gs' at h'
    cases h' with
    | @object h hroot' => exact absurd (hroot'.symm.trans hroot) (h.value_ne_list _)
    | list hroot' =>
      obtain ⟨⟩ := hroot.symm.trans hroot'
      rfl
    | rootItem | slot | item => simp at hgs
  | @rootItem l i hroot hi =>
    generalize hgs : [(⟨".", [i + 1]⟩ : Segment)] = gs' at h'
    cases h' with
    | object | list => simp at hgs
    | rootItem hroot' =>
      obtain ⟨⟩ := hroot.symm.trans hroot'
      obtain ⟨⟩ := hgs
      rfl
    | @slot _ _ _ _ name _ _ a hn hend hentry =>
      obtain ⟨-, hlabel, -⟩ := Segment.of_concat [] _ hgs
      exact absurd hlabel.symm (label_ne_dot (hn.isName hnames hend hentry) a)
    | item hn hindex =>
      obtain ⟨-, -, hplaces⟩ := Segment.of_concat [] _ hgs
      exact absurd hplaces.symm (hn.ne_places hindex le_rfl)
  | @slot n ns gs h name v index a hn hend hentry hindex ih =>
    generalize hgs : gs ++ [(⟨Node.label (.bare name) a, index.places⟩ : Segment)] = gs' at h'
    have hname := hn.isName hnames hend hentry
    cases h' with
    | object | list => simp at hgs
    | rootItem =>
      obtain ⟨-, hlabel, -⟩ := Segment.of_concat _ [] hgs
      exact absurd hlabel (label_ne_dot hname a)
    | slot hn' hend' hentry' hindex' =>
      obtain ⟨rfl, hlabel, hplaces⟩ := Segment.of_concat _ _ hgs
      obtain ⟨rfl, rfl⟩ := List.cons.inj (ih hn')
      obtain ⟨rfl, rfl⟩ := label_inj hname (hn'.isName hnames hend' hentry') hlabel
      obtain rfl := Holder.value_injective (Option.some.inj (hend.symm.trans hend'))
      obtain rfl := Option.some.inj (hentry.symm.trans hentry')
      rw [index_eq_of_places hindex hindex' hplaces]
    | item hn' hindex' =>
      obtain ⟨-, -, hplaces⟩ := Segment.of_concat _ _ hgs
      exact absurd hplaces.symm (hn'.ne_places hindex' index.length_places_le)
  | @item n ns gs name places l i hn hindex hend hi ih =>
    generalize hgs : gs ++ [(⟨name, places ++ [i + 1]⟩ : Segment)] = gs' at h'
    cases h' with
    | object | list => simp at hgs
    | rootItem =>
      obtain ⟨-, -, hplaces⟩ := Segment.of_concat _ [] hgs
      exact absurd hplaces (hn.ne_places hindex le_rfl)
    | @slot _ _ _ _ _ _ index =>
      obtain ⟨-, -, hplaces⟩ := Segment.of_concat _ _ hgs
      exact absurd hplaces (hn.ne_places hindex index.length_places_le)
    | item hn' hindex' hend' =>
      obtain ⟨rfl, rfl, hplaces⟩ := Segment.of_concat _ _ hgs
      obtain ⟨rfl, hnumber⟩ := List.append_inj' hplaces rfl
      obtain ⟨rfl, rfl⟩ := List.cons.inj (ih hn')
      obtain ⟨⟩ := hend.symm.trans hend'
      obtain ⟨⟩ := hnumber
      rfl

end Located

/-! ## The order of located chains -/

namespace Table

universe u

variable {α : Type u} {t : Table α} {k k' : String}

/-- Names of a table are told apart by their places. -/
theorem position?_inj (hk : k ∈ t.keys) (h : t.position? k = t.position? k') : k = k' := by
  obtain ⟨i, hi⟩ : ∃ i, t.position? k = some i := by
    refine Option.ne_none_iff_exists'.1 fun hnone => ?_
    simpa using List.findIdx?_eq_none_iff.1 hnone k hk
  obtain ⟨_, hki, -⟩ := List.findIdx?_eq_some_iff_getElem.1 hi
  obtain ⟨_, hki', -⟩ := List.findIdx?_eq_some_iff_getElem.1 (h ▸ hi : t.position? k' = some i)
  rw [beq_iff_eq] at hki hki'
  rw [← hki, hki']

end Table

namespace Node

variable {s : Store} {n m m' : Node}

/-- The order of chains: level by level, from the root down. -/
def chainOrder (s : Store) (ns ms : List Node) : Ordering :=
  List.compareLex (compareSiblings s) ns.reverse ms.reverse

instance : Std.TransCmp (chainOrder s) :=
  transCmp_on List.reverse (List.compareLex (compareSiblings s))

/-- Nodes of one collection are ordered by their indices. -/
theorem compareSiblings_of_isVariant (h : n.IsVariant m) (h' : n.IsVariant m') :
    m.compareSiblings s m' = m.index.compare m'.index := by
  have hsame {m : Node} (h : n.IsVariant m) :
      m.isAttribute = n.isAttribute ∧ m.position? s = n.position? s := by
    rcases h with rfl | ⟨i, hi⟩
    · exact ⟨rfl, rfl⟩
    · cases n <;> simp only [atIndex?, Option.some.injEq, reduceCtorEq] at hi <;> subst hi <;>
        exact ⟨rfl, rfl⟩
  rw [compareSiblings, (hsame h).1, (hsame h').1, (hsame h).2, (hsame h').2,
    compareBool_eq_iff.2 rfl, comparePlaces_eq_iff.2 rfl]
  rfl

theorem forall₂_of_compareLex {as bs : List Node}
    (h : List.compareLex (compareSiblings s) as bs = .eq) :
    List.Forall₂ (fun a b => a.compareSiblings s b = .eq) as bs := by
  induction as generalizing bs with
  | nil =>
    cases bs with
    | nil => exact .nil
    | cons => cases h
  | cons a as ih =>
    cases bs with
    | nil => cases h
    | cons b bs =>
      rw [List.compareLex_cons_cons, Ordering.then_eq_eq] at h
      exact .cons h.1 (ih h.2)

end Node

/-- Document order is the order of chains. -/
theorem Pointer.compareLineages_eq_chainOrder {s : Store} {r : Node} {p q : Pointer}
    (hp : Linked s r p.nodes) (hq : Linked s r q.nodes) :
    p.compareLineages s q = Node.chainOrder s p.nodes q.nodes := by
  obtain ⟨n, ns, hn, hvn, -⟩ := hp.exists_reverse
  obtain ⟨m, ms, hm, hvm, -⟩ := hq.exists_reverse
  rw [← lineage_eq] at hn hm
  rw [compareLineages, Node.chainOrder, ← lineage_eq, ← lineage_eq]
  simp only [root_eq_head, hn, hm, List.head_cons, List.tail_cons, List.compareLex_cons_cons,
    Node.compareSiblings_of_isVariant hvn hvm]

namespace Located

variable {s : Store} {root : Value} {ns ns' : List Node} {gs gs' : List Segment}

/-- Roots are told apart by their indices. -/
theorem root_eq {n : Node} (h : Located s root [n] gs) (h' : Located s root ns' gs')
    (hlevel : List.Forall₂ (fun a b => a.compareSiblings s b = .eq) [n] ns') : [n] = ns' := by
  obtain ⟨m, _, hnm, hnil, rfl⟩ := List.forall₂_cons_left_iff.1 hlevel
  obtain rfl := List.forall₂_nil_left_iff.1 hnil
  have hn : (root.node none).IsVariant n := h.linked.getLast (by simp)
  have hm : (root.node none).IsVariant m := h'.linked.getLast (by simp)
  rw [Node.eq_of_isVariant hn hm (Node.compareSiblings_eq_iff.1 hnm).2.2]

/-- **Located chains that are level at every node are one chain**: what stands below one node is
told apart by its place among the slots, its index and whether it is an attribute. -/
theorem eq_of_forall₂ (h : Located s root ns gs) (h' : Located s root ns' gs')
    (hlevel : List.Forall₂ (fun a b => a.compareSiblings s b = .eq) ns ns') : ns = ns' := by
  induction h generalizing ns' gs' with
  | object hroot => exact root_eq (.object hroot) h' hlevel
  | list hroot => exact root_eq (.list hroot) h' hlevel
  | rootItem hroot hi => exact root_eq (.rootItem hroot hi) h' hlevel
  | slot hn hend hentry hindex ih =>
    obtain ⟨m, _, hnm, hrest, rfl⟩ := List.forall₂_cons_left_iff.1 hlevel
    obtain ⟨hattribute, hposition, hsame⟩ := Node.compareSiblings_eq_iff.1 hnm
    cases h' with
    | object | list | rootItem => cases hrest
    | slot hn' hend' hentry' =>
      obtain ⟨rfl, rfl⟩ := List.cons.inj (ih hn' hrest)
      obtain rfl := Holder.value_injective (Option.some.inj (hend.symm.trans hend'))
      have hkey := Table.has_iff.1 (Table.has_iff_get?.2 ⟨_, hentry⟩)
      obtain rfl := Table.position?_inj hkey hposition
      obtain rfl : _ = _ := hattribute
      obtain rfl : _ = _ := hsame
      rfl
    | item hn' _ hend' =>
      obtain ⟨rfl, rfl⟩ := List.cons.inj (ih hn' hrest)
      exact absurd (Option.some.inj (hend.symm.trans hend')) (Holder.value_ne_list _ _)
  | item hn hindex hend hi ih =>
    obtain ⟨m, _, hnm, hrest, rfl⟩ := List.forall₂_cons_left_iff.1 hlevel
    obtain ⟨-, -, hsame⟩ := Node.compareSiblings_eq_iff.1 hnm
    cases h' with
    | object | list | rootItem => cases hrest
    | slot hn' hend' hentry' =>
      obtain ⟨rfl, rfl⟩ := List.cons.inj (ih hn' hrest)
      exact absurd (Option.some.inj (hend'.symm.trans hend)) (Holder.value_ne_list _ _)
    | item hn' _ hend' =>
      obtain ⟨rfl, rfl⟩ := List.cons.inj (ih hn' hrest)
      obtain ⟨⟩ := hend.symm.trans hend'
      obtain ⟨⟩ : _ = _ := hsame
      rfl

end Located

/-! ## Located pointers -/

namespace Pointer

variable {s : Store} {root : Value} {p q : Pointer}

/-- **Located pointers have one path just if they have one chain.** -/
theorem nodes_eq_iff_path_eq_of_isLocated (hnames : s.NamesReached root)
    (hp : IsLocated s root p) (hq : IsLocated s root q) :
    p.nodes = q.nodes ↔ p.path s = q.path s := by
  refine ⟨fun h => by rw [path, path, h], fun h => ?_⟩
  obtain ⟨gs, hp⟩ := hp
  obtain ⟨gs', hq⟩ := hq
  obtain ⟨hlabels, htext⟩ := hp.text hnames
  obtain ⟨hlabels', htext'⟩ := hq.text hnames
  rw [path, path, ← String.toList_inj, htext, htext'] at h
  obtain rfl := Grammar.eq_of_addressText_eq hlabels hlabels' h
  exact hp.nodes_eq hnames hq

/-- **Located pointers are level in document order just if they have one chain.** -/
theorem compareLineages_eq_iff (hp : IsLocated s root p) (hq : IsLocated s root q) :
    p.compareLineages s q = .eq ↔ p.nodes = q.nodes := by
  rw [compareLineages_eq_chainOrder hp.linked hq.linked]
  refine ⟨fun h => ?_, fun h => h ▸ Std.ReflCmp.compare_self⟩
  obtain ⟨gs, hp⟩ := hp
  obtain ⟨gs', hq⟩ := hq
  exact hp.eq_of_forall₂ hq (List.forall₂_reverse_iff.1 (Node.forall₂_of_compareLex h))

end Pointer

end PathQuery
