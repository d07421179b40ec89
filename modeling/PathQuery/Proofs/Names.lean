import Mathlib.Data.List.TakeWhile
import PathQuery.Proofs.Parsing

/-!
# Names

A name starts with a letter or an underscore. It is read up to the first character that stands in no
name; blanks, digits at the front and the signs of the grammar are no part of one.

* names: `IsName`, `isOutside`.
* **`reads_nameText`**: a name is read back.
-/

open PathQuery.Parser

namespace PathQuery.Grammar

variable {input rest : List Char}

/-- The whole text is a name without a colon. -/
def IsName (s : String) : Prop := nameText s.toList = .ok (s, [])

/-- A character that stands in no name. -/
def isOutside (c : Char) : Bool := !isNameStart c && !isNameChar c

theorem nameText_eq (cs : List Char) :
    nameText cs =
      if (cs.takeWhile isNameStart).isEmpty then .error cs
      else .ok (String.ofList (cs.takeWhile isNameStart ++
        (cs.dropWhile isNameStart).takeWhile isNameChar),
        (cs.dropWhile isNameStart).dropWhile isNameChar) := by
  show (takeWhile1 isNameStart cs >>= fun x =>
    (takeWhile isNameChar x.2 >>= fun y => Except.ok (String.ofList (x.1 ++ y.1), y.2))) = _
  rw [takeWhile1]
  split <;> rfl

theorem isName_iff {s : String} :
    IsName s ↔ (s.toList.takeWhile isNameStart).isEmpty = false ∧
      ∀ c ∈ s.toList.dropWhile isNameStart, isNameChar c = true := by
  rw [IsName, nameText_eq]
  split
  · next h => simp [h]
  · next h =>
    rw [Except.ok.injEq, Prod.mk.injEq, List.dropWhile_eq_nil_iff]
    refine ⟨fun hs => ⟨by simpa using h, hs.2⟩, fun hs => ⟨?_, hs.2⟩⟩
    rw [List.takeWhile_eq_self_iff.2 hs.2, List.takeWhile_append_dropWhile, String.ofList_toList]

variable {name : String} {c : Char}

theorem not_isOutside_of_mem (h : IsName name) (hc : c ∈ name.toList) : isOutside c = false := by
  rw [← List.takeWhile_append_dropWhile (p := isNameStart) (l := name.toList),
    List.mem_append] at hc
  rcases hc with hc | hc
  · simp [isOutside, List.mem_takeWhile_imp hc]
  · simp [isOutside, (isName_iff.1 h).2 c hc]

theorem not_mem_of_isOutside (h : IsName name) (hc : isOutside c = true) : c ∉ name.toList :=
  fun hm => by simp [not_isOutside_of_mem h hm] at hc

theorem reads_nameText (h : IsName name) (hrest : ∀ c ∈ rest.head?, isOutside c = true) :
    Reads nameText (name.toList ++ rest) name rest := by
  have houtside : ∀ c ∈ rest.head?, isNameStart c = false ∧ isNameChar c = false :=
    fun c hc => by simpa [isOutside] using hrest c hc
  obtain ⟨htake, hdrop⟩ := takeWhile_append_of_head name.toList
    fun c hc => (houtside c hc).1
  obtain ⟨htake', hdrop'⟩ := takeWhile_append_of_head (name.toList.dropWhile isNameStart)
    fun c hc => (houtside c hc).2
  obtain ⟨hstart, hchars⟩ := isName_iff.1 h
  rw [Reads, nameText_eq, htake, hdrop, htake', hdrop', hstart, if_neg (by simp),
    List.takeWhile_eq_self_iff.2 hchars, List.dropWhile_eq_nil_iff.2 hchars,
    List.takeWhile_append_dropWhile, String.ofList_toList, List.nil_append]

/-- A name starts with a character that begins no other part of a step. -/
theorem exists_cons_of_isName (h : IsName name) :
    ∃ c cs, name.toList = c :: cs ∧ isNameStart c = true := by
  have hstart := (isName_iff.1 h).1
  cases hn : name.toList with
  | nil => simp [hn] at hstart
  | cons c cs =>
    refine ⟨c, cs, rfl, ?_⟩
    by_contra hc
    simp [hn, hc] at hstart

theorem fails_nameText (h : ∀ c ∈ input.head?, isNameStart c = false) : Fails nameText input := by
  refine ⟨input, ?_⟩
  cases input with
  | nil => rfl
  | cons c cs =>
    rw [nameText_eq, List.takeWhile_cons, h c rfl]
    rfl

theorem fails_tag_name (h : IsName name) {s : String} {d : Char} (hs : s.toList.head? = some d)
    (hd : isNameStart d = false) : Fails (tag s) (name.toList ++ rest) := by
  obtain ⟨c, cs, hn, hc⟩ := exists_cons_of_isName h
  rw [hn]
  exact fails_tag_of_head hs (by rintro rfl; simp [hc] at hd)

/-! ## Blanks -/

theorem isTokenBlank_of_isNameStart {c : Char} (h : isNameStart c = true) :
    Text.isTokenBlank c = false := by
  simp only [Text.isTokenBlank, Bool.or_eq_false_iff, beq_eq_false_iff_ne]
  refine ⟨⟨⟨?_, ?_⟩, ?_⟩, ?_⟩ <;> rintro rfl <;> exact absurd h (by decide)

theorem name_not_blank {name : String} (h : IsName name) :
    ∀ c ∈ (name.toList ++ rest).head?, Text.isTokenBlank c = false := by
  obtain ⟨d, cs, hn, hd⟩ := exists_cons_of_isName h
  simpa [hn] using isTokenBlank_of_isNameStart hd

/-- No blank stands in a name. -/
theorem isOutside_of_isBlank {c : Char} (h : Text.isBlank c = true) : isOutside c = true := by
  have codes : ∀ n ∈ List.range' 9 5 ++ List.range' 0x2000 11 ++ [0x20, 0x85, 0xA0, 0x1680, 0x2028,
      0x2029, 0x202F, 0x205F, 0x3000], isOutside (Char.ofNat n) = true := by decide +kernel
  rw [← Char.ofNat_toNat c]
  refine codes _ ?_
  simp only [Text.isBlank, Bool.or_eq_true, Bool.and_eq_true, decide_eq_true_eq, beq_iff_eq] at h
  simp only [List.mem_append, List.mem_range'_1, List.mem_cons, List.not_mem_nil, or_false]
  omega

theorem isTokenBlank_of_isDigit {c : Char} (h : c.isDigit = true) :
    Text.isTokenBlank c = false := by
  simp only [Text.isTokenBlank, Bool.or_eq_false_iff, beq_eq_false_iff_ne]
  refine ⟨⟨⟨?_, ?_⟩, ?_⟩, ?_⟩ <;> rintro rfl <;> simp at h

theorem isBlank_of_isDigit {c : Char} (h : c.isDigit = true) : Text.isBlank c = false := by
  by_contra hb
  simp only [Char.isDigit, Bool.and_eq_true, decide_eq_true_eq, UInt32.le_iff_toNat_le] at h
  simp only [Text.isBlank, Bool.not_eq_false, Bool.or_eq_true, Bool.and_eq_true,
    decide_eq_true_eq, beq_iff_eq] at hb
  have hcode : c.toNat = c.val.toNat := rfl
  have hzero : '0'.val.toNat = 48 := rfl
  have hnine : '9'.val.toNat = 57 := rfl
  omega

theorem trimEnd_eq_self {cs : List Char} (h : ∀ c ∈ cs.getLast?, Text.isBlank c = false) :
    Text.trimEnd cs = cs := by
  rw [Text.trimEnd]
  rw [← List.head?_reverse] at h
  cases hr : cs.reverse with
  | nil => simpa using hr.symm
  | cons c ds =>
    have hc : Text.isBlank c = false := h c (by rw [hr]; rfl)
    rw [List.dropWhile_cons_of_neg (by simp [hc]), ← hr, List.reverse_reverse]

end PathQuery.Grammar
