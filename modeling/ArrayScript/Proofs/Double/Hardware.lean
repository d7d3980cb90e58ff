import Mathlib
import ArrayScript.Proofs.Double.Value

/-!
What the hardware makes of finite doubles.

The operations of `Float` unpack their operands into a sign, a number of units and the
exponent of the unit, and pack what they find.

* `unpack_eq`, `Canonical.pack_eq`: the hardware unpacks a finite double as `magnitude?` reads
  it, and packs a canonical number of units as `ofCanonical` does.
* `lt_zero_iff`: a comparison with zero is that of the values.
* `Canonical.round_eq`: rounding is exact where some double stands for the number.
* `add_exact`: so is a sum, if it is not zero.
-/

namespace ArrayScript.Double

open Float.Model Float.Model.UnpackedFloat

variable {x : Double} {m n : Nat} {e f : Int}

/-! ### Unpacking and packing -/

/-- The sign of the hardware's numbers. -/
def signOf (negative : Bool) : Sign :=
  if negative then .negative else .positive

/-- A number of units as the hardware has it. -/
def unpacked (negative : Bool) (m : Nat) (e : Int) : UnpackedFloat :=
  if h : m = 0 then .zero (signOf negative)
  else .finite (signOf negative) m e (Nat.pos_of_ne_zero h)

lemma toNat_unpackMantissa (x : Double) :
    (@unpackMantissa Format.binary64 x.bits.toBitVec).toNat = x.fractionField := by
  rw [fractionField_eq]
  simp [unpackMantissa]

lemma toNat_unpackExponent (x : Double) :
    (@unpackExponent Format.binary64 x.bits.toBitVec).toNat = x.exponentField := by
  rw [exponentField_eq]
  simp [unpackExponent, Nat.shiftRight_eq_div_pow]

lemma ofBitVec_unpackSign (x : Double) :
    Sign.ofBitVec (@unpackSign Format.binary64 x.bits.toBitVec) = signOf x.isNegative := by
  have h := x.bits.toNat_lt
  have hbit : (@unpackSign Format.binary64 x.bits.toBitVec).toNat = x.bits.toNat / 2 ^ 63 := by
    simp [unpackSign, Nat.shiftRight_eq_div_pow]
    omega
  have hzero : @unpackSign Format.binary64 x.bits.toBitVec = 0#1 ↔ ¬ 2 ^ 63 ≤ x.bits.toNat := by
    rw [← BitVec.toNat_inj, hbit, BitVec.toNat_zero]
    omega
  rw [isNegative_eq, signOf, Sign.ofBitVec]
  by_cases hneg : 2 ^ 63 ≤ x.bits.toNat
  · rw [if_neg (by rw [hzero]; simpa using hneg), if_pos (decide_eq_true hneg)]
  · rw [if_pos (hzero.mpr hneg), if_neg (by simpa using hneg)]

lemma toNat_append_implicit (v : BitVec 52) : (1#1 ++ v).toNat = 2 ^ 52 + v.toNat := by
  rw [BitVec.toNat_append, ← Nat.shiftLeft_add_eq_or_of_lt v.isLt]
  rfl

/-- The hardware unpacks a finite double as `magnitude?` reads it. -/
theorem unpack_eq (h : x.magnitude? = some (m, e)) :
    UnpackedFloat.unpack Format.binary64 x.bits.toBitVec = unpacked x.isNegative m e := by
  have hE := toNat_unpackExponent x
  have hF := toNat_unpackMantissa x
  rw [magnitude?] at h
  split at h
  swap
  · cases h
  rename_i hfinite
  have hfull : @unpackExponent Format.binary64 x.bits.toBitVec ≠ -1#_ := fun hfull =>
    isFinite_iff.mp hfinite (hE ▸ congrArg BitVec.toNat hfull)
  rw [UnpackedFloat.unpack]
  dsimp only
  rw [ofBitVec_unpackSign, if_neg hfull]
  split at h
  · rename_i hzero
    obtain ⟨rfl, rfl⟩ := Prod.mk.inj (Option.some.inj h)
    have hexponent : @unpackExponent Format.binary64 x.bits.toBitVec = 0#_ :=
      BitVec.toNat_inj.mp (hE.trans hzero)
    rw [if_pos hexponent, unpacked]
    by_cases hm : x.fractionField = 0
    · have hfraction : @unpackMantissa Format.binary64 x.bits.toBitVec = 0#_ :=
        BitVec.toNat_inj.mp (hF.trans hm)
      rw [dif_pos hfraction, dif_pos hm]
    · rw [dif_neg fun h0 => hm (hF ▸ congrArg BitVec.toNat h0), dif_neg hm]
      congr 1
      rw [hE, hzero]
      rfl
  · rename_i hzero
    obtain ⟨rfl, rfl⟩ := Prod.mk.inj (Option.some.inj h)
    rw [if_neg fun h0 => hzero (hE ▸ congrArg BitVec.toNat h0), unpacked, dif_neg (by omega)]
    congr 1
    · exact (toNat_append_implicit _).trans (congrArg (2 ^ 52 + ·) hF)
    · rw [hE]
      rfl

lemma toNat_packComponents (negative : Bool) (exponent : BitVec 11) (fraction : BitVec 52) :
    (packComponents Format.binary64 (signOf negative) exponent fraction).toNat =
      (if negative then 2 ^ 63 else 0) + (exponent.toNat * 2 ^ 52 + fraction.toNat) := by
  have hF := fraction.isLt
  have hE := exponent.isLt
  rw [packComponents, BitVec.toNat_append, ← Nat.shiftLeft_add_eq_or_of_lt fraction.isLt,
    BitVec.toNat_append, ← Nat.shiftLeft_add_eq_or_of_lt exponent.isLt]
  cases negative
  · simp [signOf, Sign.toBitVec, Nat.shiftLeft_eq]
  · simp [signOf, Sign.toBitVec, Nat.shiftLeft_eq]
    omega

/-- The hardware packs a canonical number of units as `ofCanonical` does. -/
theorem Canonical.pack_eq (h : Canonical m e) (negative : Bool) :
    (⟨UInt64.ofBitVec (UnpackedFloat.pack Format.binary64 (unpacked negative m e))⟩ : Double) =
      ofCanonical negative m e := by
  obtain ⟨hbelow, hleast, hgreatest, hnormal⟩ := h
  suffices hbits : (UnpackedFloat.pack Format.binary64 (unpacked negative m e)).toNat =
      (if negative then 2 ^ 63 else 0) + ((e + 1074).toNat * 2 ^ 52 + m) by
    rw [ofCanonical, Double.mk.injEq, ← UInt64.toNat_inj, toNat_signed negative (by omega)]
    exact hbits
  rw [unpacked]
  split
  · rename_i hm
    subst hm
    rw [UnpackedFloat.pack, packedZero, hnormal (by decide)]
    exact toNat_packComponents negative 0#11 0#52
  · rename_i hm
    -- a number of units is normal if its leading bit is the implicit one
    have hlog : m.log2 + 1 = Format.mantissaBits Format.binary64 ↔ 2 ^ 52 ≤ m := by
      have := Nat.le_log2 hm (k := 52)
      have := (Nat.log2_lt hm (k := 53)).mpr hbelow
      have : Format.mantissaBits Format.binary64 = 53 := rfl
      omega
    have hbiased : (e + (Format.exponentBias Format.binary64 : Int) +
        (Format.mantissaBitsWithoutImplicit Format.binary64 : Int)).toNat =
        (e + 1074).toNat + 1 := by
      have : (Format.exponentBias Format.binary64 : Int) = 1023 := rfl
      have : (Format.mantissaBitsWithoutImplicit Format.binary64 : Int) = 52 := rfl
      omega
    rw [UnpackedFloat.pack]
    dsimp only
    rw [hbiased, if_neg (by simp; omega)]
    split
    · rename_i hnorm
      rw [toNat_packComponents]
      rw [hlog] at hnorm
      simp
      omega
    · rename_i hsub
      rw [toNat_packComponents]
      rw [hlog] at hsub
      have := hnormal (by omega)
      simp
      omega

/-- A canonical number of units is unpacked as it was packed. -/
lemma Canonical.unpack_pack (h : Canonical m e) (negative : Bool) :
    UnpackedFloat.unpack Format.binary64 (UnpackedFloat.pack Format.binary64
      (unpacked negative m e)) = unpacked negative m e := by
  obtain ⟨_, hsign, hread⟩ := h.read negative
  have hunpack := unpack_eq hread
  rwa [hsign, ← h.pack_eq negative] at hunpack

/-- The hardware's number for the bits of a finite double. -/
lemma unpack_ofBits (h : x.magnitude? = some (m, e)) :
    (Float.ofBits x.bits).toModel.unpack = unpacked x.isNegative m e := by
  have hcanonical := canonical_of_magnitude? h
  show UnpackedFloat.unpack Format.binary64 (UnpackedFloat.pack Format.binary64
    (UnpackedFloat.unpack Format.binary64 x.bits.toBitVec)) = _
  rw [unpack_eq h]
  exact hcanonical.unpack_pack x.isNegative

/-! ### Comparison with zero -/

/-- The hardware's comparison with zero is that of the values. -/
theorem lt_zero_iff (h : x.isFinite = true) : x.lt zero = true ↔ x.value < 0 := by
  obtain ⟨m, e, hread, _, hsize⟩ := magnitude?_eq_some h
  have hzero : (Float.ofBits zero.bits).toModel.unpack = unpacked false 0 (-1074) :=
    unpack_ofBits (by decide)
  have hlt : x.lt zero = (Float.ofBits x.bits).toModel.unpack.lt
      (Float.ofBits zero.bits).toModel.unpack := by
    show decide (decide (_ = true) = true) = _
    rw [Bool.decide_eq_true, Bool.decide_eq_true]
    rfl
  rw [hlt, unpack_ofBits hread, hzero, value, hsize]
  rcases Nat.eq_zero_or_pos m with rfl | hm
  · rw [Nat.cast_zero, zero_mul, signed_zero]
    cases x.isNegative <;> exact iff_of_false Bool.false_ne_true (lt_irrefl 0)
  · have hpos := (units_pos_iff e).mpr hm
    rw [unpacked, dif_neg hm.ne']
    cases x.isNegative with
    | false => exact iff_of_false Bool.false_ne_true hpos.not_gt
    | true => exact iff_of_true rfl (neg_neg_of_pos hpos)

/-! ### Rounding what is exact -/

lemma log2_lt_of_eq (hm : 0 < m) (h : (m * 2 ^ e : ℚ) = n * 2 ^ f) :
    (m.log2 : ℤ) + e < n.log2 + 1 + f := by
  refine (zpow_lt_zpow_iff_right₀ (by norm_num : (1 : ℚ) < 2)).mp ?_
  calc (2 : ℚ) ^ ((m.log2 : ℤ) + e) = 2 ^ (m.log2 : ℤ) * 2 ^ e := zpow_add₀ (by norm_num) _ _
    _ ≤ m * 2 ^ e := mul_le_mul_of_nonneg_right (two_pow_log2_le hm) (two_zpow_pos e).le
    _ = n * 2 ^ f := h
    _ < 2 ^ ((n.log2 : ℤ) + 1) * 2 ^ f :=
        mul_lt_mul_of_pos_right (lt_two_pow_log2 n) (two_zpow_pos f)
    _ = 2 ^ ((n.log2 : ℤ) + 1 + f) := (zpow_add₀ (by norm_num) _ _).symm

/-- Two numbers of units that are equal, counted in the smaller unit. -/
lemma shiftLeft_eq_of_eq (h : (m * 2 ^ e : ℚ) = n * 2 ^ f) :
    m <<< (e - min e f).toNat = n <<< (f - min e f).toNat := by
  have hcross := (shiftLeft_mul m (min_le_left e f)).trans
    (h.trans (shiftLeft_mul n (min_le_right e f)).symm)
  exact_mod_cast mul_right_cancel₀ (two_zpow_pos _).ne' hcross

/-- The unit the hardware chooses for a canonical number of units is the one they have. -/
lemma Canonical.targetExponent_eq (h : Canonical n f) (hn : 0 < n) (hm : 0 < m)
    (heq : (m * 2 ^ e : ℚ) = n * 2 ^ f) :
    Format.binary64.targetExponent (totalExponent m e) = f := by
  have hlow := log2_lt_of_eq hm heq
  have hhigh := log2_lt_of_eq hn heq.symm
  have hbelow := (Nat.log2_lt hn.ne').mpr h.below
  have hnormal : n.log2 < 52 → f = -1074 := fun hlt => h.normal ((Nat.log2_lt hn.ne').mp hlt)
  have hleast := h.least
  show max ((m.log2 : ℤ) + 1 + e - 53) (-1074) = f
  omega

/-- There is one canonical number of units for every number but zero. -/
lemma Canonical.unique (hm : Canonical m e) (hn : Canonical n f) (hpos : 0 < n)
    (h : (m * 2 ^ e : ℚ) = n * 2 ^ f) : m = n ∧ e = f := by
  have hm' : 0 < m := (units_pos_iff e).mp (h ▸ (units_pos_iff f).mpr hpos)
  obtain rfl : e = f :=
    (hm.targetExponent_eq hm' hm' rfl).symm.trans (hn.targetExponent_eq hpos hm' h)
  exact ⟨by exact_mod_cast mul_right_cancel₀ (two_zpow_pos e).ne' h, rfl⟩

/-- Nothing is lost by shifting out zeros. -/
lemma shiftRight_exact (m k : Nat) :
    (ExtendedMantissa.mk (m <<< k) false false) >>> k = ⟨m, false, false⟩ := by
  induction k generalizing m with
  | zero => rfl
  | succ k ih =>
      show ExtendedMantissa.shiftRightOne
        (ExtendedMantissa.mk (m <<< (k + 1)) false false >>> k) = _
      rw [Nat.shiftLeft_succ_inside, ih, ExtendedMantissa.shiftRightOne]
      simp

/-- Rounding is exact where some double stands for the number. -/
lemma Canonical.round_eq (h : Canonical n f) (hn : 0 < n) (heq : (m * 2 ^ e : ℚ) = n * 2 ^ f)
    (negative : Bool) :
    UnpackedFloat.round Format.binary64 (signOf negative) m e = unpacked negative n f := by
  have hm : 0 < m := (units_pos_iff e).mp (heq ▸ (units_pos_iff f).mpr hn)
  have hsame := shiftLeft_mul n (min_le_right e f)
  have hpos : 0 < n <<< (f - min e f).toNat :=
    (units_pos_iff _).mp (hsame ▸ (units_pos_iff f).mpr hn)
  -- the unit is made as small as the canonical one, and then as large
  have hdecrease : decreaseExponent m e f = (n <<< (f - min e f).toNat, min e f) := by
    have hamount : (e - f).toNat = (e - min e f).toNat := by omega
    have hunit : e - ((e - min e f).toNat : ℤ) = min e f := by omega
    rw [decreaseExponent, hamount, shiftLeft_eq_of_eq heq, hunit]
  have hincrease : shiftToTargetExponent Format.binary64 (n <<< (f - min e f).toNat) (min e f)
      .exact = (⟨n, false, false⟩, f) := by
    have hunit : min e f + ((f - min e f).toNat : ℤ) = f := by omega
    rw [shiftToTargetExponent, h.targetExponent_eq hn hpos hsame, shiftToExponent,
      ExtendedMantissa.ofMantissaAndAccuracy, shiftRight_exact, hunit]
  have hstay : shiftToTargetExponent Format.binary64 n f .exact = (⟨n, false, false⟩, f) := by
    rw [shiftToTargetExponent, h.targetExponent_eq hn hn rfl, shiftToExponent, sub_self]
    exact congrArg _ (add_zero f)
  have hrounded : (ExtendedMantissa.mk n false false).roundedMantissa = n := rfl
  rw [UnpackedFloat.round, h.targetExponent_eq hn hm heq, hdecrease]
  dsimp only
  rw [roundWithAccuracy, hincrease]
  dsimp only
  rw [hrounded, hstay]
  dsimp only
  rw [dif_neg hn.ne', unpacked, dif_neg hn.ne']

/-! ### Sums -/

lemma apply_signOf (negative : Bool) (m : Nat) :
    ((signOf negative).apply m : ℚ) = signed negative m := by
  cases negative
  · rfl
  · simp [signOf, Sign.apply, signed]

/-- So is the sum of numbers that have been brought to one unit. -/
lemma Canonical.normalize_eq {sum : Int} (h : Canonical n f) (hn : 0 < n) {negative : Bool}
    (heq : (sum * 2 ^ e : ℚ) = signed negative (n * 2 ^ f)) :
    UnpackedFloat.normalize Format.binary64 sum e .positive = unpacked negative n f := by
  have hpos := (units_pos_iff f).mpr hn
  cases negative with
  | false =>
      have hsum : (0 : ℚ) < sum := (mul_pos_iff_of_pos_right (two_zpow_pos e)).mp (heq ▸ hpos)
      have hsum' : 0 < sum := by exact_mod_cast hsum
      obtain ⟨k, rfl⟩ := Int.eq_ofNat_of_zero_le hsum'.le
      rw [UnpackedFloat.normalize, Std.compare_eq_gt.mpr hsum']
      exact h.round_eq hn heq false
  | true =>
      have heq' : ((-sum : ℤ) * 2 ^ e : ℚ) = n * 2 ^ f := by
        rw [Int.cast_neg, neg_mul, heq]
        exact neg_neg _
      have hsum : (0 : ℚ) < (-sum : ℤ) :=
        (mul_pos_iff_of_pos_right (two_zpow_pos e)).mp (heq' ▸ hpos)
      have hsum' : 0 < -sum := by exact_mod_cast hsum
      obtain ⟨k, hk⟩ := Int.eq_ofNat_of_zero_le hsum'.le
      rw [hk] at heq'
      rw [UnpackedFloat.normalize, Std.compare_eq_lt.mpr (by omega), hk]
      exact h.round_eq hn heq' true

/-- The hardware's sum of numbers of units, if some double stands for it and it is not zero. -/
lemma Canonical.unpacked_add {k : Nat} {u : Int} (h : Canonical k u) (hk : 0 < k)
    (hm : Canonical m e) (hn : Canonical n f) {a b negative : Bool}
    (heq : signed a (m * 2 ^ e) + signed b (n * 2 ^ f) = signed negative (k * 2 ^ u)) :
    UnpackedFloat.add Format.binary64 (unpacked a m e) (unpacked b n f) =
      unpacked negative k u := by
  have hpos := (units_pos_iff u).mpr hk
  rcases Nat.eq_zero_or_pos m with rfl | hm0 <;> rcases Nat.eq_zero_or_pos n with rfl | hn0
  · rw [Nat.cast_zero, zero_mul, zero_mul, signed_zero, signed_zero, add_zero,
      ← signed_zero negative] at heq
    exact absurd (signed_inj le_rfl hpos heq).2 hpos.ne
  · rw [Nat.cast_zero, zero_mul, signed_zero, zero_add] at heq
    obtain ⟨rfl, hsize⟩ := signed_inj (units_nonneg n f) hpos heq
    obtain ⟨rfl, rfl⟩ := hn.unique h hk hsize
    rw [unpacked, unpacked, dif_pos rfl, dif_neg hn0.ne']
    rfl
  · rw [Nat.cast_zero, zero_mul, signed_zero, add_zero] at heq
    obtain ⟨rfl, hsize⟩ := signed_inj (units_nonneg m e) hpos heq
    obtain ⟨rfl, rfl⟩ := hm.unique h hk hsize
    rw [unpacked, unpacked, dif_pos rfl, dif_neg hm0.ne']
    rfl
  · have hsum : ((signOf a).apply (m <<< (e - min e f).toNat : ℕ) +
        (signOf b).apply (n <<< (f - min e f).toNat : ℕ) : ℤ) * (2 : ℚ) ^ min e f =
        signed negative (k * 2 ^ u) := by
      rw [← heq, Int.cast_add, apply_signOf, apply_signOf, add_mul, signed_mul, signed_mul,
        shiftLeft_mul m (min_le_left e f), shiftLeft_mul n (min_le_right e f)]
    rw [unpacked, unpacked, dif_neg hm0.ne', dif_neg hn0.ne']
    exact h.normalize_eq hk hsum

/-- A sum that some double stands for, and that is not zero, is found exactly. -/
theorem add_exact {x y : Double} (hx : x.isFinite = true) (hy : y.isFinite = true) {q : ℚ}
    (hq : IsRepresentable q) (hpos : 0 < q) {negative : Bool}
    (hsum : x.value + y.value = signed negative q) : (x.add y).StandsFor negative q := by
  obtain ⟨k, u, h, rfl⟩ := hq
  obtain ⟨m, e, hreadx, hm, hsizex⟩ := magnitude?_eq_some hx
  obtain ⟨n, f, hready, hn, hsizey⟩ := magnitude?_eq_some hy
  have hk := (units_pos_iff u).mp hpos
  have hmodel : (Float.ofBits x.bits + Float.ofBits y.bits).toModel =
      Float.Model.pack (unpacked negative k u) := by
    rw [value, value, hsizex, hsizey] at hsum
    rw [← h.unpacked_add hk hm hn hsum, ← unpack_ofBits hreadx, ← unpack_ofBits hready]
    rfl
  have hnumber : (Float.ofBits x.bits + Float.ofBits y.bits).isNaN = false := by
    show (Float.ofBits x.bits + Float.ofBits y.bits).toModel.unpack.isNaN = false
    rw [hmodel]
    show (UnpackedFloat.unpack _ (UnpackedFloat.pack _ _)).isNaN = false
    rw [h.unpack_pack, unpacked, dif_neg hk.ne']
    rfl
  have hresult : x.add y = ofCanonical negative k u := by
    rw [add, operate, not_isNaN_of_isFinite hx, not_isNaN_of_isFinite hy]
    show (if (Float.ofBits x.bits + Float.ofBits y.bits).isNaN then indefinite else
      ⟨(Float.ofBits x.bits + Float.ofBits y.bits).toModel.toBits⟩) = _
    rw [hnumber, hmodel]
    exact h.pack_eq negative
  rw [hresult]
  exact h.standsFor negative

end ArrayScript.Double
