import PathQuery.Proofs.Integers
import PathQuery.Proofs.RoundTrip
import PathQuery.Proofs.SpacedWords

/-!
# Numbers in texts and literals

A text is a number at run time if one minus sign at most and a decimal literal are all of it but for
the blanks around. The number has the value of the literal. The grammar gives the literal the same
value, but reads a fraction over at the end of the text.

* names: `Literal.cut`, `signedText`.
* `isNaN_nearest`: what rounds to a double is a number, so that not-a-number says that a text is
  none. `parseUnsigned?_eq_some_iff`, `read?_end_iff`: the two readers of literals.
* **`parse_eq_signed_literal`**: both read the same texts.
-/

open PathQuery.Parser PathQuery.Grammar

namespace PathQuery.Number

/-! ## Not-a-number -/

section Doubles

open Float.Model Float.Model.UnpackedFloat

theorem isNaN_unpack (b : BitVec 64) :
    (UnpackedFloat.unpack .binary64 b).isNaN = true ↔
      @unpackExponent .binary64 b = -1#11 ∧ @unpackMantissa .binary64 b ≠ 0#52 := by
  rw [UnpackedFloat.unpack]
  dsimp only
  split
  · next h =>
    split
    · next hm => simp [hm, UnpackedFloat.isNaN]
    · next hm => simp [h, hm, UnpackedFloat.isNaN]
  · next h =>
    split
    · split <;> simp_all [UnpackedFloat.isNaN]
    · simp_all [UnpackedFloat.isNaN]

/-- Packing rounds to infinity at most. -/
theorem isNaN_unpack_pack (x : UnpackedFloat) :
    (UnpackedFloat.unpack .binary64 (UnpackedFloat.pack .binary64 x)).isNaN = x.isNaN := by
  rw [Bool.eq_iff_iff, isNaN_unpack]
  cases x with
  | notANumber => simp [UnpackedFloat.pack, packedNaN, UnpackedFloat.isNaN]
  | infinity s => simp [UnpackedFloat.pack, packedInfinity, UnpackedFloat.isNaN]
  | zero s => simp [UnpackedFloat.pack, packedZero, UnpackedFloat.isNaN]
  | finite s m e h =>
    rw [UnpackedFloat.pack]
    dsimp only
    split
    · simp [packedInfinity, UnpackedFloat.isNaN]
    · next hexp =>
      -- an exponent field of all ones would have been packed as infinity
      have hne : BitVec.ofNat 11 (e + Format.binary64.exponentBias +
          Format.binary64.mantissaBitsWithoutImplicit).toNat ≠ -1#11 := by
        intro heq
        have := congrArg BitVec.toNat heq
        rw [BitVec.toNat_ofNat] at this
        simp at this hexp
        omega
      split
      · simpa [UnpackedFloat.isNaN] using fun h => absurd h hne
      · simp [UnpackedFloat.isNaN]

theorem isNaN_neg (x : Float) : (-x).isNaN = x.isNaN := by
  show (UnpackedFloat.unpack .binary64 (UnpackedFloat.pack .binary64 x.toModel.unpack.neg)).isNaN =
    x.toModel.unpack.isNaN
  rw [isNaN_unpack_pack]
  cases x.toModel.unpack <;> rfl

theorem isNaN_signed (negative : Bool) (x : Float) : (signed negative x).isNaN = x.isNaN := by
  cases negative
  · rfl
  · exact isNaN_neg x

theorem nearestBits_le (num den : Nat) : nearestBits num den ≤ infinityBits := by
  rw [nearestBits]
  split
  · exact Nat.zero_le _
  · exact Nat.min_le_right _ _

/-- The double nearest to a ratio is a number. -/
theorem isNaN_nearest (num den : Nat) : (nearest num den).isNaN = false := by
  let b := UInt64.ofNat (nearestBits num den)
  have hb : b.toNat ≤ 2047 * 2 ^ 52 := by
    have := nearestBits_le num den
    have hinfinity : infinityBits = 2047 * 2 ^ 52 := rfl
    rw [UInt64.toNat_ofNat']
    omega
  show (UnpackedFloat.unpack .binary64 (UnpackedFloat.pack .binary64
    (UnpackedFloat.unpack .binary64 b.toBitVec))).isNaN = false
  rw [isNaN_unpack_pack, Bool.eq_false_iff, ne_eq, isNaN_unpack]
  rintro ⟨hexp, hman⟩
  have hexp' := congrArg BitVec.toNat hexp
  rw [toNat_unpackExponent] at hexp'
  refine hman (BitVec.eq_of_toNat_eq ?_)
  rw [toNat_unpackMantissa]
  simp at hexp' ⊢
  omega

theorem isNaN_quotient : (0.0 / 0.0 : Float).isNaN = true := by decide +kernel

end Doubles

/-! ## Literals as texts -/

namespace Literal

variable {l : Literal} {u : List Char} {x : Float}

theorem ne_point_of_isDigit {c : Char} (h : c.isDigit = true) : c ≠ '.' := by
  rintro rfl
  cases h

/-- No sign stands in a literal. -/
theorem IsWrittenAs.isDigit_or (h : l.IsWrittenAs u) : ∀ c ∈ u, c.isDigit = true ∨ c = '.' := by
  obtain ⟨hl, ⟨-, rfl⟩ | rfl⟩ := isWrittenAs_iff.1 h
  · exact fun c hc => .inl (hl.whole c hc)
  · intro c hc
    rcases List.mem_append.1 hc with hc | hc
    · exact .inl (hl.whole c hc)
    · rcases List.mem_cons.1 hc with rfl | hc
      · exact .inr rfl
      · exact .inl (hl.fraction c hc)

/-! ### The grammar -/

/-- What is read up to the end of a text is a literal at its end. -/
theorem exists_isWrittenAs_of_read? (h : Literal.read? u = some (l, [])) :
    ∃ l' : Literal, l'.IsWrittenAs u ∧ l = l'.atEnd := by
  have hdigits : ∀ c ∈ u.takeWhile Char.isDigit, c.isDigit = true :=
    fun c hc => List.mem_takeWhile_imp hc
  have hsplit : u.takeWhile Char.isDigit ++ u.dropWhile Char.isDigit = u :=
    List.takeWhile_append_dropWhile
  rw [Literal.read?] at h
  generalize u.takeWhile Char.isDigit = whole at *
  generalize u.dropWhile Char.isDigit = after at *
  subst hsplit
  split at h
  · -- the point comes first, and digits must follow it
    next fraction =>
    dsimp only at h
    split at h
    · cases h
    · next hne =>
      obtain ⟨rfl, hend⟩ := Prod.mk.inj (Option.some.inj h)
      have hfraction : ∀ c ∈ fraction, c.isDigit = true := List.dropWhile_eq_nil_iff.1 hend
      rw [List.takeWhile_eq_self_iff.2 hfraction] at hne ⊢
      exact ⟨⟨[], fraction⟩, ⟨⟨hfraction, by simpa using hne⟩, .inr rfl⟩, rfl⟩
  · cases h
  · -- digits and a point: at the end of the text, the digits behind it are in `u` but not in `l`
    next d ds fraction =>
    split at h
    · next hend =>
      obtain ⟨rfl, -⟩ := Prod.mk.inj (Option.some.inj h)
      have hfraction : ∀ c ∈ fraction, c.isDigit = true := List.dropWhile_eq_nil_iff.1 hend
      refine ⟨⟨d :: ds, fraction⟩, ⟨⟨fun c hc => ?_, by simp⟩, .inr rfl⟩, rfl⟩
      exact (List.mem_append.1 hc).elim (hdigits c) (hfraction c)
    · next hne =>
      exact absurd (Prod.mk.inj (Option.some.inj h)).2 hne
  · next d ds _ =>
    obtain ⟨rfl, rfl⟩ := Prod.mk.inj (Option.some.inj h)
    exact ⟨⟨d :: ds, []⟩, ⟨⟨by simpa using hdigits, by simp⟩, .inl (by simp [text])⟩, rfl⟩

theorem read?_end_iff :
    Literal.read? u = some (l, []) ↔ ∃ l' : Literal, l'.IsWrittenAs u ∧ l = l'.atEnd := by
  refine ⟨exists_isWrittenAs_of_read?, ?_⟩
  rintro ⟨l', h, rfl⟩
  have hend : ∀ c ∈ ([] : List Char).head?, c.isDigit = false ∧ c ≠ '.' := by simp
  simpa using read?_of_isWrittenAs h hend

/-! ### Unsigned texts -/

/-- What stands before and behind the first point of a text. -/
def cut (u : List Char) : Literal :=
  ⟨u.takeWhile (· != '.'), (u.dropWhile (· != '.')).drop 1⟩

theorem IsWrittenAs.cut_eq (h : l.IsWrittenAs u) : cut u = l := by
  obtain ⟨hl, hu⟩ := isWrittenAs_iff.1 h
  have hwhole : ∀ c ∈ l.whole, (c != '.') = true :=
    fun c hc => bne_iff_ne.2 (ne_point_of_isDigit (hl.whole c hc))
  obtain ⟨whole, fraction⟩ := l
  rcases hu with ⟨hnil, rfl⟩ | rfl
  · obtain rfl : fraction = [] := hnil
    rw [cut, List.takeWhile_eq_self_iff.2 hwhole, List.dropWhile_eq_nil_iff.2 hwhole]
    rfl
  · rw [cut, List.takeWhile_append_of_pos hwhole, List.dropWhile_append_of_pos hwhole]
    simp

/-- A literal consists of digits and one point at most, and is not the point alone. -/
theorem exists_isWrittenAs_iff : (∃ l : Literal, l.IsWrittenAs u) ↔
    u ≠ [] ∧ (∀ c ∈ u, c.isDigit = true ∨ c = '.') ∧ u.count '.' ≤ 1 ∧ u ≠ ['.'] := by
  constructor
  · rintro ⟨l, h⟩
    have hcount {cs : List Char} (hcs : ∀ c ∈ cs, c.isDigit = true) : cs.count '.' = 0 :=
      List.count_eq_zero.2 fun hc => ne_point_of_isDigit (hcs _ hc) rfl
    obtain ⟨hl, hu⟩ := isWrittenAs_iff.1 h
    have hwhole := hcount hl.whole
    have hfraction := hcount hl.fraction
    have hne := hl.2
    obtain ⟨whole, fraction⟩ := l
    rcases hu with ⟨hnil, rfl⟩ | rfl
    · obtain rfl : fraction = [] := hnil
      refine ⟨by simpa using hne, h.isDigit_or, by simp [hwhole], ?_⟩
      rintro rfl
      simp at hwhole
    · refine ⟨by simp, h.isDigit_or, by simp [hwhole, hfraction], fun hpoint => hne ?_⟩
      simpa [List.append_eq_cons_iff] using hpoint
  · rintro ⟨hne, hall, hcount, hpoint⟩
    have hdigits (cs : List Char) (hcs : cs ⊆ u) (h : '.' ∉ cs) : ∀ c ∈ cs, c.isDigit = true :=
      fun c hc => (hall c (hcs hc)).resolve_right fun heq => h (heq ▸ hc)
    by_cases hmem : '.' ∈ u
    · obtain ⟨whole, fraction, rfl⟩ := List.append_of_mem hmem
      simp only [List.count_append, List.count_cons_self] at hcount
      have hwhole := hdigits whole (by simp) (List.count_eq_zero.1 (by omega))
      have hfraction := hdigits fraction (by simp) (List.count_eq_zero.1 (by omega))
      refine ⟨⟨whole, fraction⟩, ⟨fun c hc => ?_, fun hnil => hpoint ?_⟩, .inr rfl⟩
      · exact (List.mem_append.1 hc).elim (hwhole c) (hfraction c)
      · simpa [List.append_eq_cons_iff] using hnil
    · exact ⟨⟨u, []⟩, ⟨by simpa using hdigits u (List.Subset.refl u) hmem, by simpa using hne⟩,
        .inl (by simp [text])⟩

theorem parseUnsigned?_eq_some_iff :
    parseUnsigned? u = some x ↔ ∃ l : Literal, l.IsWrittenAs u ∧ x = l.value := by
  have hcut : (∃ l : Literal, l.IsWrittenAs u ∧ x = l.value) ↔
      (∃ l : Literal, l.IsWrittenAs u) ∧ (cut u).value = x := by
    constructor
    · rintro ⟨l, h, rfl⟩
      exact ⟨⟨l, h⟩, by rw [h.cut_eq]⟩
    · rintro ⟨⟨l, h⟩, rfl⟩
      exact ⟨l, h, by rw [h.cut_eq]⟩
  rw [hcut, exists_isWrittenAs_iff]
  show (if _ then some (cut u).value else none) = some x ↔ _
  rw [Option.ite_none_right_eq_some, Option.some.injEq]
  simp [and_assoc]

end Literal

/-! ## Texts -/

/-- An unsigned text with the sign before it. -/
def signedText (negative : Bool) (u : List Char) : List Char := if negative then '-' :: u else u

section Texts

variable {s : String} {negative : Bool} {u : List Char} {l : Literal} {x : Float}

theorem reads_to_end_iff :
    Reads numberLiteral u x [] ↔ ∃ l : Literal, l.IsWrittenAs u ∧ x = l.atEnd.value := by
  constructor
  · intro h
    rw [Reads, numberLiteral] at h
    split at h
    · next l rest hl =>
      obtain ⟨rfl, rfl⟩ := Prod.mk.inj (Except.ok.inj h)
      obtain ⟨l', h', rfl⟩ := Literal.exists_isWrittenAs_of_read? hl
      exact ⟨l', h', rfl⟩
    · cases h
  · rintro ⟨l, h, rfl⟩
    exact reads_numberLiteral_of (Literal.read?_end_iff.2 ⟨l, h, rfl⟩)

/-- A minus sign at the front of a text is its sign. -/
theorem exists_signedText (cs : List Char) : ∃ negative u, cs = signedText negative u ∧
    (negative = false → u.head? ≠ some '-') := by
  by_cases h : cs.head? = some '-'
  · obtain ⟨u, rfl⟩ := List.head?_eq_some_iff.1 h
    exact ⟨true, u, rfl, nofun⟩
  · exact ⟨false, cs, rfl, fun _ => h⟩

theorem parse_of_signedText (hs : Text.trim s.toList = signedText negative u)
    (hu : negative = false → u.head? ≠ some '-') :
    parse s = ((parseUnsigned? u).map (signed negative)).getD (0.0 / 0.0) := by
  rw [parse, hs]
  cases negative with
  | true => rfl
  | false =>
    rw [signedText, if_neg Bool.false_ne_true, show signed false = id from rfl, Option.map_id, id]
    split
    · exact absurd rfl (hu rfl)
    · rfl

/-- The number in a text has the value of the literal, and its sign. -/
theorem parse_of_isWrittenAs (hs : Text.trim s.toList = signedText negative u)
    (h : l.IsWrittenAs u) : parse s = signed negative l.value := by
  have hsign : u.head? ≠ some '-' := fun hhead =>
    absurd (h.isDigit_or '-' (List.mem_of_head? hhead)) (by decide)
  rw [parse_of_signedText hs fun _ => hsign,
    Literal.parseUnsigned?_eq_some_iff.2 ⟨l, h, rfl⟩, Option.map_some, Option.getD_some]

/-- A text that is a number is a literal, with one sign before it at most. -/
theorem exists_isWrittenAs_of_parse (h : (parse s).isNaN = false) :
    ∃ negative u, Text.trim s.toList = signedText negative u ∧ ∃ l : Literal, l.IsWrittenAs u := by
  obtain ⟨negative, u, hs, hu⟩ := exists_signedText (Text.trim s.toList)
  refine ⟨negative, u, hs, ?_⟩
  rw [parse_of_signedText hs hu] at h
  cases hparsed : parseUnsigned? u with
  | none =>
    rw [hparsed, Option.map_none, Option.getD_none, isNaN_quotient] at h
    cases h
  | some x =>
    obtain ⟨l, hl, -⟩ := Literal.parseUnsigned?_eq_some_iff.1 hparsed
    exact ⟨l, hl⟩

/-- **Numbers in texts are literals.** A text is a number exactly if one minus sign at most and a
literal that the grammar reads to its end are all of it but for the blanks around. The number has
the value of the literal, with the sign. The grammar gives the literal this value in front of other
text; where it ends the text, a fraction behind whole digits is read over. -/
theorem parse_eq_signed_literal (s : String) :
    ((parse s).isNaN = false ↔ ∃ negative u x,
      Text.trim s.toList = signedText negative u ∧ Reads numberLiteral u x []) ∧
    ∀ negative u x, Text.trim s.toList = signedText negative u → Reads numberLiteral u x [] →
      ∃ l : Literal, l.IsWrittenAs u ∧ parse s = signed negative l.value ∧
        (∀ c rest, c.isDigit = false → c ≠ '.' →
          Reads numberLiteral (u ++ c :: rest) l.value (c :: rest)) ∧
        x = l.atEnd.value ∧
        (l.whole = [] ∨ l.fraction = [] → parse s = signed negative x) := by
  refine ⟨⟨fun h => ?_, ?_⟩, fun negative u x hs hu => ?_⟩
  · obtain ⟨negative, u, hs, l, hl⟩ := exists_isWrittenAs_of_parse h
    exact ⟨negative, u, l.atEnd.value, hs, reads_to_end_iff.2 ⟨l, hl, rfl⟩⟩
  · rintro ⟨negative, u, x, hs, hu⟩
    obtain ⟨l, hl, -⟩ := reads_to_end_iff.1 hu
    rw [parse_of_isWrittenAs hs hl, isNaN_signed]
    exact isNaN_nearest _ _
  · obtain ⟨l, hl, rfl⟩ := reads_to_end_iff.1 hu
    have hparse := parse_of_isWrittenAs hs hl
    refine ⟨l, hl, hparse, fun c rest hc hpoint => ?_, rfl, fun hend => ?_⟩
    · have hstop : ∀ d ∈ (c :: rest).head?, d.isDigit = false ∧ d ≠ '.' := by simp [hc, hpoint]
      simpa using reads_numberLiteral_of (read?_of_isWrittenAs hl hstop)
    · rw [hparse, Literal.atEnd_eq_self hend]

theorem parse_minusQuarter :
    (parse " -.25 ").isNaN = false ∧ parse " -.25 " = signed true (nearest 25 100) ∧
      Reads numberLiteral ".25)".toList (nearest 25 100) [')'] := by
  have hs : Text.trim " -.25 ".toList = signedText true ".25".toList := by decide
  have hread : Reads numberLiteral ".25".toList (nearest 25 100) [] := by with_unfolding_all rfl
  obtain ⟨hnumber, hvalue⟩ := parse_eq_signed_literal " -.25 "
  obtain ⟨l, hl, hparse, hfront, -, hsame⟩ := hvalue true _ _ hs hread
  obtain rfl : l = ⟨[], ['2', '5']⟩ := hl.cut_eq.symm.trans (by decide)
  exact ⟨hnumber.2 ⟨true, _, _, hs, hread⟩, hsame (.inl rfl), hfront ')' [] rfl (by decide)⟩

/-- In a text there is the number 5.5, and the literal 5.5 at the end of a text is read as 5. -/
theorem parse_ne_literal :
    Text.trim "5.5".toList = signedText false "5.5".toList ∧
      Reads numberLiteral "5.5".toList (ofNat 5) [] ∧ parse "5.5" = fiveAndHalf.value ∧
        parse "5.5" ≠ ofNat 5 := by
  have hparse : parse "5.5" = fiveAndHalf.value := by with_unfolding_all rfl
  refine ⟨by decide, by with_unfolding_all rfl, hparse, ?_⟩
  rw [hparse]
  exact five_ne_fiveAndHalf.symm

end Texts

end PathQuery.Number
