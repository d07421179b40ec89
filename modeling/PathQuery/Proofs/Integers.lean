import Mathlib
import PathQuery.Number.Literal
import PathQuery.Value

/-!
# Exact integers

Integers up to `2 ^ 53` are doubles. They survive rounding, are equal as doubles only if they are
equal, and are what their decimal digits denote.

* names: `unpack_normal`, `pack_normal`, `nearestBits_of_lt`.
* **`roundToInt_ofNat`**: an integer rounds to itself. **`ofNat_beq_ofNat`**: equality of doubles is
  equality of integers. **`digitsValue_toDigits`**: digits are read back as they were written.
* **`Value.same_refl`**: every value is the same as itself, not-a-number too.
-/

namespace PathQuery.Number

open Float.Model Float.Model.UnpackedFloat

/-! ## Bit fields -/

section Fields

variable (b : UInt64)

theorem toNat_unpackSign :
    (@unpackSign .binary64 b.toBitVec).toNat = b.toNat / 2 ^ 63 := by
  have := b.toNat_lt
  simp [unpackSign, BitVec.extractLsb, BitVec.extractLsb', Nat.shiftRight_eq_div_pow]
  omega

theorem toNat_unpackExponent :
    (@unpackExponent .binary64 b.toBitVec).toNat = b.toNat / 2 ^ 52 % 2 ^ 11 := by
  simp [unpackExponent, BitVec.extractLsb, BitVec.extractLsb', Nat.shiftRight_eq_div_pow]

theorem toNat_unpackMantissa :
    (@unpackMantissa .binary64 b.toBitVec).toNat = b.toNat % 2 ^ 52 := by
  simp [unpackMantissa, BitVec.extractLsb, BitVec.extractLsb']

end Fields

theorem toNat_one_append (v : BitVec 52) : (1#1 ++ v).toNat = 2 ^ 52 + v.toNat := by
  rw [BitVec.toNat_append, ← Nat.shiftLeft_add_eq_or_of_lt v.isLt]
  simp [Nat.shiftLeft_eq]

/-! ## Positive normal doubles -/

section Normal

variable {b : UInt64} {field fraction : Nat} (hb : b.toNat = field * 2 ^ 52 + fraction)
  (h0 : 0 < field) (hf : field < 2047) (hm : fraction < 2 ^ 52)

include hb h0 hf hm

theorem unpack_normal :
    UnpackedFloat.unpack .binary64 b.toBitVec =
      .finite .positive (2 ^ 52 + fraction) (field - 1075) (by omega) := by
  have hsign : @unpackSign .binary64 b.toBitVec = 0#1 := by
    apply BitVec.eq_of_toNat_eq
    rw [toNat_unpackSign, hb, BitVec.toNat_ofNat]
    omega
  have hexp : (@unpackExponent .binary64 b.toBitVec).toNat = field := by
    rw [toNat_unpackExponent, hb]
    omega
  have hman : (@unpackMantissa .binary64 b.toBitVec).toNat = fraction := by
    rw [toNat_unpackMantissa, hb]
    omega
  have hne1 : @unpackExponent .binary64 b.toBitVec ≠ -1#11 := fun h => by
    have := congrArg BitVec.toNat h
    rw [hexp] at this
    simp at this
    omega
  have hne0 : @unpackExponent .binary64 b.toBitVec ≠ 0#11 := fun h => by
    have := congrArg BitVec.toNat h
    rw [hexp] at this
    simp at this
    omega
  have hbias : ((Format.binary64.exponentBias : Nat) : Int) = 1023 := rfl
  rw [UnpackedFloat.unpack]
  simp only [hsign, if_neg hne1, if_neg hne0, hexp, hbias, toNat_one_append, hman]
  simp [Sign.ofBitVec]

theorem pack_normal :
    UnpackedFloat.pack .binary64
      (.finite .positive (2 ^ 52 + fraction) (field - 1075) (by omega)) = b.toBitVec := by
  have hlog : (2 ^ 52 + fraction).log2 = 52 := by
    rw [Nat.log2_eq_iff (by omega)]
    omega
  have hbias : (((field : Int) - 1075) + Format.binary64.exponentBias +
      Format.binary64.mantissaBitsWithoutImplicit).toNat = field := by
    show (((field : Int) - 1075) + (1023 : Nat) + (52 : Nat)).toNat = field
    omega
  rw [UnpackedFloat.pack]
  simp only [hlog, hbias]
  rw [if_neg (by simp; omega), if_pos (by simp [Format.mantissaBits])]
  have hman : (BitVec.ofNat 52 (2 ^ 52 + fraction)).toNat = fraction := by
    rw [BitVec.toNat_ofNat]
    omega
  have hexp : (BitVec.ofNat 11 field).toNat = field := by
    rw [BitVec.toNat_ofNat]
    omega
  apply BitVec.eq_of_toNat_eq
  rw [packComponents, BitVec.toNat_append, BitVec.toNat_append, hman, hexp,
    ← Nat.shiftLeft_add_eq_or_of_lt (by omega), Nat.shiftLeft_eq]
  simp [Sign.toBitVec, hb]

theorem toBits_ofBits_normal : (Float.ofBits b).toBits = b := by
  show UInt64.ofBitVec
    (UnpackedFloat.pack .binary64 (UnpackedFloat.unpack .binary64 b.toBitVec)) = b
  rw [unpack_normal hb h0 hf hm, pack_normal hb h0 hf hm]

theorem ofFloat?_ofBits_normal :
    Dyadic.ofFloat? (Float.ofBits b) =
      some ⟨false, 2 ^ 52 + fraction, (field : Int) - 1075⟩ := by
  have hfield : b.toNat / Nat.pow 2 52 % Nat.pow 2 11 = field := by
    rw [hb]
    simp only [Nat.pow_eq]
    omega
  have hfraction : b.toNat % Nat.pow 2 52 = fraction := by
    rw [hb]
    simp only [Nat.pow_eq]
    omega
  have hsign : (b.toNat / Nat.pow 2 63 == 1) = false := by
    rw [hb, beq_eq_false_iff_ne]
    simp only [Nat.pow_eq]
    omega
  rw [Dyadic.ofFloat?, toBits_ofBits_normal hb h0 hf hm]
  simp only [hfield, hfraction, hsign]
  rw [if_neg (by omega), if_neg (by omega)]
  rfl

theorem unpack_ofBits_normal :
    (Float.ofBits b).toModel.unpack =
      .finite .positive (2 ^ 52 + fraction) (field - 1075) (by omega) := by
  show UnpackedFloat.unpack .binary64 (Float.ofBits b).toBits.toBitVec = _
  rw [toBits_ofBits_normal hb h0 hf hm, unpack_normal hb h0 hf hm]

end Normal

/-! ## Doubles of integers -/

theorem log2_le_of_lt {n : Nat} (h0 : 0 < n) (hn : n < 2 ^ 53) : n.log2 ≤ 52 := by
  have := (Nat.log2_lt (by omega)).2 hn
  omega

/-- An integer shifted to the width of a mantissa. -/
theorem mantissa_bounds {n : Nat} (h0 : 0 < n) (hn : n < 2 ^ 53) :
    2 ^ 52 ≤ n * 2 ^ (52 - n.log2) ∧ n * 2 ^ (52 - n.log2) < 2 ^ 53 := by
  have hlog := log2_le_of_lt h0 hn
  constructor
  · calc 2 ^ 52 = 2 ^ n.log2 * 2 ^ (52 - n.log2) := by rw [← pow_add]; congr 1; omega
      _ ≤ n * 2 ^ (52 - n.log2) := Nat.mul_le_mul_right _ (Nat.log2_self_le (by omega))
  · calc n * 2 ^ (52 - n.log2) < 2 ^ (n.log2 + 1) * 2 ^ (52 - n.log2) :=
          Nat.mul_lt_mul_of_pos_right Nat.lt_log2_self (by positivity)
      _ = 2 ^ 53 := by rw [← pow_add]; congr 1; omega

theorem nearestBits_of_lt {n : Nat} (h0 : 0 < n) (hn : n < 2 ^ 53) :
    nearestBits n 1 = (n.log2 + 1023) * 2 ^ 52 + (n * 2 ^ (52 - n.log2) - 2 ^ 52) := by
  have hlog := log2_le_of_lt h0 hn
  have ⟨hlow, hhigh⟩ := mantissa_bounds h0 hn
  have hguess : ((n.log2 : Int) - (Nat.log2 1 : Nat) - 52) = -((52 - n.log2 : Nat) : Int) := by
    have : Nat.log2 1 = 0 := rfl
    omega
  have hscale : scaleDown n 1 (-((52 - n.log2 : Nat) : Int)) = (n * 2 ^ (52 - n.log2), 1) := by
    rw [scaleDown]
    split
    · next h =>
      have : 52 - n.log2 = 0 := by omega
      simp [this]
    · simp
  have hulp : ulpExponent n 1 = -((52 - n.log2 : Nat) : Int) := by
    rw [ulpExponent, hguess]
    simp only [hscale]
    rw [if_neg (by simpa using hlow)]
    omega
  have hexact (m : Nat) : divNearestEven m 1 = m := by simp [divNearestEven, Nat.mod_one]
  have hexp : (-((52 - n.log2 : Nat) : Int) + 1074).toNat = n.log2 + 1022 := by omega
  rw [nearestBits, if_neg (by omega), hulp]
  simp only [hscale, hexact]
  rw [hexp, infinityBits]
  simp only [Nat.pow_eq]
  omega

theorem nearestBits_pow : nearestBits (2 ^ 53) 1 = 1076 * 2 ^ 52 + 0 := by decide

/-- Integers from `2 ^ 53` on have bits beyond those of smaller ones. -/
theorem le_nearestBits {m : Nat} (hm : 2 ^ 53 ≤ m) :
    1076 * 2 ^ 52 ≤ nearestBits m 1 ∧ nearestBits m 1 ≤ infinityBits := by
  have hlog : 53 ≤ m.log2 := (Nat.le_log2 (by omega)).2 hm
  have hguess : ((m.log2 : Int) - (Nat.log2 1 : Nat) - 52) = ((m.log2 - 52 : Nat) : Int) := by
    have : Nat.log2 1 = 0 := rfl
    omega
  have hscale : scaleDown m 1 ((m.log2 - 52 : Nat) : Int) = (m, 2 ^ (m.log2 - 52)) := by
    rw [scaleDown, if_pos (by omega)]
    simp
  have hquotient : 2 ^ 52 ≤ m / 2 ^ (m.log2 - 52) := by
    rw [Nat.le_div_iff_mul_le (Nat.two_pow_pos _), ← pow_add, Nat.add_sub_cancel' (by omega)]
    exact Nat.log2_self_le (by omega)
  have hulp : ulpExponent m 1 = ((m.log2 - 52 : Nat) : Int) := by
    rw [ulpExponent, hguess]
    simp only [hscale]
    rw [if_neg (by simpa using hquotient)]
    omega
  have hnearest : 2 ^ 52 ≤ divNearestEven m (2 ^ (m.log2 - 52)) := by
    rw [divNearestEven]
    split <;> omega
  rw [nearestBits, if_neg (by omega), hulp]
  simp only [hscale, infinityBits, Nat.pow_eq]
  omega

theorem toNat_ofNat_nearestBits {n field fraction : Nat}
    (h : nearestBits n 1 = field * 2 ^ 52 + fraction) (hf : field < 2047)
    (hm : fraction < 2 ^ 52) :
    (UInt64.ofNat (nearestBits n 1)).toNat = field * 2 ^ 52 + fraction := by
  rw [h, UInt64.toNat_ofNat']
  omega

theorem roundToInt_of_dyadic {x : Float} {m n k : Nat}
    (h : Dyadic.ofFloat? x = some ⟨false, m, -(k : Int)⟩) (hm : m = n * 2 ^ k)
    (hn : n ≤ 2 ^ 53) : roundToInt x = n := by
  have hword : wordBound = 9223372036854775808 := rfl
  have hpos := Nat.two_pow_pos k
  have hhalf : (2 * m + 2 ^ k) / (2 * 2 ^ k) = n := by
    rw [hm, show 2 * (n * 2 ^ k) + 2 ^ k = 2 ^ k + n * (2 * 2 ^ k) by ring,
      Nat.add_mul_div_right _ _ (by omega), Nat.div_eq_of_lt (by omega), Nat.zero_add]
  have hmagnitude : (if 0 ≤ -(k : Int) then m * Nat.pow 2 (-(k : Int)).toNat
      else (2 * m + Nat.pow 2 (-(-(k : Int))).toNat) / (2 * Nat.pow 2 (-(-(k : Int))).toNat)) =
        n := by
    split
    · next hk =>
      have : k = 0 := by omega
      simp [hm, this]
    · simpa using hhalf
  rw [roundToInt, h]
  simp only [hmagnitude, hword]
  rw [if_neg (by simp)]
  omega

/-- The bits of a positive integer are those of a normal double that rounds to the integer. -/
theorem exists_normal {n : Nat} (h0 : 0 < n) (hn : n ≤ 2 ^ 53) :
    ∃ field fraction,
      (UInt64.ofNat (nearestBits n 1)).toNat = field * 2 ^ 52 + fraction ∧
        0 < field ∧ field < 2047 ∧ fraction < 2 ^ 52 ∧ roundToInt (ofNat n) = n := by
  rcases Nat.lt_or_eq_of_le hn with hlt | rfl
  · have hlog := log2_le_of_lt h0 hlt
    have ⟨hlow, hhigh⟩ := mantissa_bounds h0 hlt
    have hbits := toNat_ofNat_nearestBits (nearestBits_of_lt h0 hlt) (by omega) (by omega)
    refine ⟨n.log2 + 1023, _, hbits, by omega, by omega, by omega, ?_⟩
    have hd := ofFloat?_ofBits_normal hbits (by omega) (by omega) (by omega)
    rw [Nat.add_sub_cancel' hlow] at hd
    have hexp : ((n.log2 + 1023 : Nat) : Int) - 1075 = -((52 - n.log2 : Nat) : Int) := by omega
    rw [hexp] at hd
    exact roundToInt_of_dyadic hd rfl hn
  · have hbits := toNat_ofNat_nearestBits nearestBits_pow (by omega) (by omega)
    refine ⟨1076, 0, hbits, by omega, by omega, by omega, ?_⟩
    have hd := ofFloat?_ofBits_normal hbits (by omega) (by omega) (by omega)
    rw [roundToInt, ofNat, nearest, hd]
    decide

theorem roundToInt_ofNat {n : Nat} (hn : n ≤ 2 ^ 53) : roundToInt (ofNat n) = n := by
  rcases Nat.eq_zero_or_pos n with rfl | h0
  · decide +kernel
  · obtain ⟨_, _, _, _, _, _, h⟩ := exists_normal h0 hn
    exact h

/-- Integers from `2 ^ 53` on do not round to smaller ones. -/
theorem le_roundToInt_ofNat {n : Nat} (hn : 2 ^ 53 ≤ n) : 2 ^ 53 ≤ roundToInt (ofNat n) := by
  have hword : wordBound = 9223372036854775808 := rfl
  obtain ⟨hlow, hhigh⟩ := le_nearestBits hn
  have hinfinity : infinityBits = 2047 * 2 ^ 52 := rfl
  rcases Nat.eq_or_lt_of_le hhigh with heq | hlt
  · rw [ofNat, nearest, heq]
    decide +kernel
  · obtain ⟨field, fraction, hbits, hfield, hfraction⟩ : ∃ field fraction,
        nearestBits n 1 = field * 2 ^ 52 + fraction ∧ field < 2047 ∧ fraction < 2 ^ 52 :=
      ⟨nearestBits n 1 / 2 ^ 52, nearestBits n 1 % 2 ^ 52, by omega, by omega, by omega⟩
    have hd := ofFloat?_ofBits_normal (toNat_ofNat_nearestBits hbits hfield hfraction) (by omega)
      hfield hfraction
    have hpow : 2 ^ 1 ≤ 2 ^ (field - 1075) := Nat.pow_le_pow_right (by omega) (by omega)
    have hmagnitude : 2 ^ 53 ≤ (2 ^ 52 + fraction) * 2 ^ (field - 1075) :=
      calc 2 ^ 53 = 2 ^ 52 * 2 ^ 1 := rfl
        _ ≤ (2 ^ 52 + fraction) * 2 ^ (field - 1075) := Nat.mul_le_mul (by omega) hpow
    have hexponent : ((field : Int) - 1075).toNat = field - 1075 := by omega
    rw [roundToInt, ofNat, nearest, hd]
    simp only [hword, hexponent, Nat.pow_eq]
    rw [if_pos (show (0 : Int) ≤ field - 1075 by omega), if_neg (by simp)]
    omega

/-! ## Equality of doubles -/

theorem compare_finite_positive {m m' : Nat} {e e' : Int} (h : 0 < m) (h' : 0 < m')
    (heq : UnpackedFloat.compare (.finite .positive m e h) (.finite .positive m' e' h') =
      some .eq) : e = e' ∧ m = m' := by
  simp only [UnpackedFloat.compare, Option.some.injEq, Ordering.then_eq_eq] at heq
  exact ⟨compare_eq_iff_eq.1 heq.1, compare_eq_iff_eq.1 heq.2⟩

theorem beq_eq_compare (x y : Float) :
    (x == y) = (UnpackedFloat.compare x.toModel.unpack y.toModel.unpack == some .eq) := rfl

theorem isNaN_eq (x : Float) : x.isNaN = UnpackedFloat.isNaN x.toModel.unpack := rfl

/-- A double that is a number equals itself. -/
theorem beq_self_of_not_isNaN {x : Float} (h : x.isNaN = false) : (x == x) = true := by
  rw [isNaN_eq] at h
  rw [beq_eq_compare, beq_iff_eq]
  cases hx : x.toModel.unpack with
  | notANumber => simp [hx, UnpackedFloat.isNaN] at h
  | infinity s => cases s <;> rfl
  | zero s => cases s <;> rfl
  | finite s m e hm => cases s <;> simp [UnpackedFloat.compare]

/-- Equality of doubles is equality of integers if one of them is below `2 ^ 53`. -/
theorem ofNat_beq_ofNat {n m : Nat} (hn0 : 0 < n) (hn : n < 2 ^ 53) (hm0 : 0 < m) :
    (ofNat n == ofNat m) = decide (n = m) := by
  have hlog := log2_le_of_lt hn0 hn
  have ⟨hlow, hhigh⟩ := mantissa_bounds hn0 hn
  have hbits := toNat_ofNat_nearestBits (nearestBits_of_lt hn0 hn) (by omega) (by omega)
  have hun := unpack_ofBits_normal hbits (by omega) (by omega) (by omega)
  rw [Bool.eq_iff_iff, decide_eq_true_iff]
  constructor
  · intro h
    rw [beq_eq_compare, beq_iff_eq, ofNat, nearest, hun, ofNat, nearest] at h
    rcases Nat.lt_or_ge m (2 ^ 53) with hm | hm
    · have hlog' := log2_le_of_lt hm0 hm
      have ⟨hlow', hhigh'⟩ := mantissa_bounds hm0 hm
      have hbits' := toNat_ofNat_nearestBits (nearestBits_of_lt hm0 hm) (by omega) (by omega)
      rw [unpack_ofBits_normal hbits' (by omega) (by omega) (by omega)] at h
      obtain ⟨he, hfraction⟩ := compare_finite_positive _ _ h
      have hlogs : n.log2 = m.log2 := by omega
      rw [hlogs] at hfraction hlow
      exact Nat.eq_of_mul_eq_mul_right (Nat.two_pow_pos _)
        (show n * 2 ^ (52 - m.log2) = m * 2 ^ (52 - m.log2) by omega)
    · obtain ⟨hlow', hhigh'⟩ := le_nearestBits hm
      have hinfinity : infinityBits = 2047 * 2 ^ 52 := rfl
      have hbits' : (UInt64.ofNat (nearestBits m 1)).toNat =
          nearestBits m 1 / 2 ^ 52 * 2 ^ 52 + nearestBits m 1 % 2 ^ 52 := by
        rw [UInt64.toNat_ofNat']
        omega
      rcases Nat.lt_or_eq_of_le hhigh' with hlt | heq
      · rw [unpack_ofBits_normal hbits' (by omega) (by omega) (by omega)] at h
        obtain ⟨he, -⟩ := compare_finite_positive _ _ h
        omega
      · rw [heq] at h
        have hunpack : (Float.ofBits (UInt64.ofNat infinityBits)).toModel.unpack =
            .infinity .positive := by rfl
        rw [hunpack] at h
        simp [UnpackedFloat.compare] at h
  · rintro rfl
    apply beq_self_of_not_isNaN
    rw [isNaN_eq, ofNat, nearest, hun]
    rfl

/-! ## Digits -/

theorem digitsValue_append (cs : List Char) (c : Char) :
    digitsValue (cs ++ [c]) = 10 * digitsValue cs + (c.toNat - '0'.toNat) := by
  simp [digitsValue]

theorem toNat_digitChar {d : Nat} (h : d < 10) : (Nat.digitChar d).toNat - '0'.toNat = d := by
  interval_cases d <;> rfl

/-- Digits are read back as they were written. -/
theorem digitsValue_toDigits (n : Nat) : digitsValue (Nat.toDigits 10 n) = n := by
  induction n using Nat.strongRecOn with
  | ind n ih =>
    rcases Nat.lt_or_ge n 10 with h | h
    · rw [Nat.toDigits_of_lt_base h]
      simpa [digitsValue] using toNat_digitChar h
    · rw [Nat.toDigits_of_base_le (by omega) h, digitsValue_append, ih _ (by omega),
        toNat_digitChar (Nat.mod_lt _ (by omega))]
      omega

theorem literal_value_toDigits (n : Nat) :
    Literal.value ⟨Nat.toDigits 10 n, []⟩ = ofNat n := by
  rw [Literal.value, List.append_nil, digitsValue_toDigits]
  rfl

end PathQuery.Number

namespace PathQuery.Value

/-- Every value is the same as itself. -/
@[simp] theorem same_refl (v : Value) : v.same v = true := by
  cases v with
  | number x =>
    rw [same]
    cases hx : x.isNaN with
    | true => rw [Bool.and_self, Bool.or_true]
    | false => rw [Number.beq_self_of_not_isNaN hx, Bool.true_or]
  | _ => simp [same]

end PathQuery.Value
