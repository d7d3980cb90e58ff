import Mathlib.Tactic
import Mathlib.Algebra.Order.Floor.Semiring
import Mathlib.Data.Rat.Floor
import ArrayScript.Double

/-!
The numbers that doubles stand for.

* `Double.value`: the number a finite double stands for, by its three fields.
* `Double.magnitude?_eq_some`: `magnitude?` reads the absolute value of that number as a whole
  number of units, each a power of two.
* `Double.ofRatio_exact`: a quotient that some double stands for is converted exactly.
-/

namespace ArrayScript.Double

/-! ### Fields -/

lemma isNegative_eq (x : Double) : x.isNegative = decide (2 ^ 63 ≤ x.bits.toNat) := by
  have h := x.bits.toNat_lt
  rw [isNegative, Bool.eq_iff_iff, beq_iff_eq, decide_eq_true_iff, ← UInt64.toNat_inj,
    UInt64.toNat_shiftRight]
  simp [Nat.shiftRight_eq_div_pow]
  omega

lemma exponentField_eq (x : Double) : x.exponentField = x.bits.toNat / 2 ^ 52 % 2 ^ 11 := by
  rw [exponentField, UInt64.toNat_and, UInt64.toNat_shiftRight]
  simp [Nat.shiftRight_eq_div_pow]
  exact Nat.and_two_pow_sub_one_eq_mod _ 11

lemma fractionField_eq (x : Double) : x.fractionField = x.bits.toNat % 2 ^ 52 := by
  rw [fractionField, UInt64.toNat_and]
  exact Nat.and_two_pow_sub_one_eq_mod _ 52

lemma toNat_signed (negative : Bool) {n : Nat} (h : n < 2 ^ 63) :
    (UInt64.ofNat n ||| (if negative then 0x8000000000000000 else 0)).toNat =
      (if negative then 2 ^ 63 else 0) + n := by
  rw [UInt64.toNat_or, UInt64.toNat_ofNat_of_lt' (h.trans (by decide))]
  cases negative with
  | false => simp
  | true =>
      have hor := Nat.two_pow_add_eq_or_of_lt h 1
      simpa [Nat.or_comm] using hor.symm

/-! ### Values -/

/-- The absolute value of the number a finite double stands for. -/
def absValue (x : Double) : ℚ :=
  if x.exponentField = 0 then x.fractionField / 2 ^ 52 * 2 ^ (-1022 : ℤ)
  else (1 + x.fractionField / 2 ^ 52) * 2 ^ ((x.exponentField : ℤ) - 1023)

/-- A number with a sign. -/
def signed (negative : Bool) (q : ℚ) : ℚ :=
  if negative then -q else q

/-- The number a finite double stands for. -/
def value (x : Double) : ℚ :=
  signed x.isNegative x.absValue

@[simp] lemma signed_zero (negative : Bool) : signed negative 0 = 0 := by
  cases negative <;> simp [signed]

lemma signed_mul (negative : Bool) (p q : ℚ) :
    signed negative p * q = signed negative (p * q) := by
  cases negative <;> simp [signed]

lemma signed_inj {a b : Bool} {p q : ℚ} (hp : 0 ≤ p) (hq : 0 < q)
    (h : signed a p = signed b q) : a = b ∧ p = q := by
  cases a <;> cases b <;> simp only [signed, Bool.false_eq_true, if_true, if_false] at h
  · exact ⟨rfl, h⟩
  · linarith
  · linarith
  · exact ⟨rfl, neg_inj.mp h⟩

/-- Whole numbers of units as doubles have them: fewer than `2^53` units, and at least `2^52`
unless the unit is the smallest. -/
structure Canonical (m : Nat) (e : Int) : Prop where
  below : m < 2 ^ 53
  least : -1074 ≤ e
  greatest : e ≤ 971
  normal : m < 2 ^ 52 → e = -1074

lemma isFinite_iff {x : Double} : x.isFinite = true ↔ x.exponentField ≠ 2047 := by
  rw [isFinite, bne_iff_ne]

/-- The absolute value of a finite double as a whole number of units. -/
theorem magnitude?_eq_some {x : Double} (h : x.isFinite = true) :
    ∃ m e, x.magnitude? = some (m, e) ∧ Canonical m e ∧ x.absValue = m * 2 ^ e := by
  have hE : x.exponentField < 2 ^ 11 := by
    rw [exponentField_eq]
    exact Nat.mod_lt _ (by decide)
  have hF : x.fractionField < 2 ^ 52 := by
    rw [fractionField_eq]
    exact Nat.mod_lt _ (by decide)
  have hne := isFinite_iff.mp h
  rw [magnitude?, if_pos h, absValue]
  split
  · refine ⟨_, _, rfl, ⟨by omega, le_rfl, by decide, fun _ => rfl⟩, ?_⟩
    rw [show (-1022 : ℤ) = -1074 + 52 by norm_num, zpow_add₀ (by norm_num)]
    generalize (2 : ℚ) ^ (-1074 : ℤ) = unit
    norm_num
    ring
  · rename_i hzero
    refine ⟨_, _, rfl, ⟨by omega, by omega, by omega, fun hlt => by omega⟩, ?_⟩
    rw [show ((x.exponentField : ℤ) - 1023) = (x.exponentField - 1075) + 52 by ring,
      zpow_add₀ (by norm_num)]
    generalize (2 : ℚ) ^ ((x.exponentField : ℤ) - 1075) = unit
    push_cast
    norm_num
    ring

/-- What `magnitude?` reads is canonical. -/
lemma canonical_of_magnitude? {x : Double} {m : Nat} {e : Int} (h : x.magnitude? = some (m, e)) :
    Canonical m e := by
  have hfinite : x.isFinite = true := by
    rw [magnitude?] at h
    by_contra hnot
    rw [if_neg hnot] at h
    cases h
  obtain ⟨m', e', h', hcanonical, _⟩ := magnitude?_eq_some hfinite
  obtain ⟨rfl, rfl⟩ := Prod.mk.inj (Option.some.inj (h.symm.trans h'))
  exact hcanonical

lemma not_isNaN_of_isFinite {x : Double} (h : x.isFinite = true) : x.isNaN = false := by
  rw [isNaN, beq_eq_false_iff_ne.mpr (isFinite_iff.mp h), Bool.false_and]

/-- The double of a canonical number of units. -/
def ofCanonical (negative : Bool) (m : Nat) (e : Int) : Double :=
  ⟨UInt64.ofNat ((e + 1074).toNat * 0x10000000000000 + m) |||
    (if negative then 0x8000000000000000 else 0)⟩

/-- What is written for a canonical number of units is read back. -/
lemma Canonical.read {m : Nat} {e : Int} (h : Canonical m e) (negative : Bool) :
    (ofCanonical negative m e).isFinite = true ∧
    (ofCanonical negative m e).isNegative = negative ∧
    (ofCanonical negative m e).magnitude? = some (m, e) := by
  obtain ⟨hbelow, hleast, hgreatest, hnormal⟩ := h
  obtain ⟨k, rfl⟩ : ∃ k : Nat, e = k - 1074 := ⟨(e + 1074).toNat, by omega⟩
  have hk : ((k : Int) - 1074 + 1074).toNat = k := by omega
  have hbits : (ofCanonical negative m (k - 1074)).bits.toNat =
      (if negative then 2 ^ 63 else 0) + (k * 2 ^ 52 + m) := by
    rw [ofCanonical, hk]
    exact toNat_signed negative (by omega)
  have hE : (ofCanonical negative m (k - 1074)).exponentField = k + m / 2 ^ 52 := by
    rw [exponentField_eq, hbits]
    cases negative <;> simp only [Bool.false_eq_true, if_false, if_true] <;> omega
  have hF : (ofCanonical negative m (k - 1074)).fractionField = m % 2 ^ 52 := by
    rw [fractionField_eq, hbits]
    cases negative <;> simp only [Bool.false_eq_true, if_false, if_true] <;> omega
  have hfinite : (ofCanonical negative m (k - 1074)).isFinite = true := by
    rw [isFinite_iff, hE]
    omega
  refine ⟨hfinite, ?_, ?_⟩
  · rw [isNegative_eq, hbits]
    cases negative
    · simp
      omega
    · simp
  · rw [magnitude?, if_pos hfinite, hE, hF]
    by_cases hm : m < 2 ^ 52
    · have := hnormal hm
      rw [if_pos (by omega)]
      simp
      omega
    · rw [if_neg (by omega)]
      simp
      omega

lemma two_zpow_pos (e : ℤ) : (0 : ℚ) < 2 ^ e :=
  zpow_pos (by norm_num) e

lemma units_pos_iff {m : Nat} (e : Int) : (0 : ℚ) < m * 2 ^ e ↔ 0 < m :=
  (mul_pos_iff_of_pos_right (two_zpow_pos e)).trans Nat.cast_pos

lemma units_nonneg (m : Nat) (e : Int) : (0 : ℚ) ≤ m * 2 ^ e :=
  mul_nonneg m.cast_nonneg (two_zpow_pos e).le

/-- A number of units in smaller units. -/
lemma shiftLeft_mul {e u : Int} (m : Nat) (h : u ≤ e) :
    ((m <<< (e - u).toNat : ℕ) * 2 ^ u : ℚ) = m * 2 ^ e := by
  have he : e = ((e - u).toNat : ℤ) + u := by omega
  rw [Nat.shiftLeft_eq]
  push_cast
  rw [mul_assoc, ← zpow_natCast, ← zpow_add₀ (by norm_num), ← he]

/-- Some double has the number as its absolute value. -/
def IsRepresentable (q : ℚ) : Prop :=
  ∃ m e, Canonical m e ∧ q = m * 2 ^ e

/-- Few enough units of any size can be brought to a canonical number of units. -/
lemma isRepresentable_of_lt {m : Nat} {e : Int} (hm : m < 2 ^ 53) (hleast : -1074 ≤ e)
    (hgreatest : e ≤ 971) : IsRepresentable (m * 2 ^ e) := by
  rcases Nat.eq_zero_or_pos m with rfl | hpos
  · exact ⟨0, -1074, ⟨by decide, le_rfl, by decide, fun _ => rfl⟩, by simp⟩
  have hlog : m.log2 < 53 := (Nat.log2_lt hpos.ne').mpr hm
  have hlow : 2 ^ m.log2 ≤ m := Nat.log2_self_le hpos.ne'
  have hhigh : m < 2 ^ (m.log2 + 1) := Nat.lt_log2_self
  obtain ⟨k, hk⟩ : ∃ k : Nat, k = min (52 - m.log2) (e + 1074).toNat := ⟨_, rfl⟩
  refine ⟨m * 2 ^ k, e - k, ⟨?_, by omega, by omega, fun hsmall => ?_⟩, ?_⟩
  · calc m * 2 ^ k < 2 ^ (m.log2 + 1) * 2 ^ k :=
        Nat.mul_lt_mul_of_pos_right hhigh (by positivity)
      _ = 2 ^ (m.log2 + 1 + k) := (pow_add _ _ _).symm
      _ ≤ 2 ^ 53 := Nat.pow_le_pow_right (by decide) (by omega)
  · -- fewer than `2^52` units are left only where the unit cannot be made smaller
    have hlt : m.log2 + k < 52 := by
      by_contra hge
      have hle : 2 ^ 52 ≤ m * 2 ^ k := calc
        2 ^ 52 ≤ 2 ^ (m.log2 + k) := Nat.pow_le_pow_right (by decide) (by omega)
        _ = 2 ^ m.log2 * 2 ^ k := pow_add _ _ _
        _ ≤ m * 2 ^ k := Nat.mul_le_mul_right _ hlow
      omega
    omega
  · rw [zpow_sub₀ (by norm_num)]
    push_cast
    have := two_zpow_pos k
    rw [zpow_natCast] at *
    field_simp

lemma isRepresentable_natCast {n : Nat} (h : n < 2 ^ 53) : IsRepresentable n := by
  have hrep := isRepresentable_of_lt (e := 0) h (by decide) (by decide)
  rwa [zpow_zero, mul_one] at hrep

/-! ### The nearest double -/

lemma roundHalfEven_of_dvd {num den q : Nat} (hden : 0 < den) (h : num = q * den) :
    roundHalfEven num den = q := by
  rw [roundHalfEven, h, Nat.mul_div_cancel _ hden, Nat.mul_mod_left]
  exact if_pos hden

/-- Whether a quotient reaches a power of two is decided without fractions. -/
lemma floorLog2_eq (num : Nat) {den : Nat} (hden : 0 < den) :
    floorLog2 num den =
      if (2 : ℚ) ^ ((num.log2 : ℤ) - den.log2) ≤ num / den then (num.log2 : ℤ) - den.log2
      else (num.log2 : ℤ) - den.log2 - 1 := by
  have hden' : (0 : ℚ) < den := by exact_mod_cast hden
  rw [floorLog2]
  generalize (num.log2 : ℤ) - den.log2 = l
  cases l with
  | ofNat k =>
      refine if_congr ?_ rfl rfl
      rw [decide_eq_true_iff, le_div_iff₀ hden', Nat.shiftLeft_eq, Int.ofNat_eq_natCast,
        zpow_natCast, mul_comm]
      exact_mod_cast Iff.rfl
  | negSucc k =>
      refine if_congr ?_ rfl rfl
      rw [decide_eq_true_iff, le_div_iff₀ hden', Nat.shiftLeft_eq, zpow_negSucc,
        inv_mul_le_iff₀ (by positivity), mul_comm]
      exact_mod_cast Iff.rfl

lemma two_pow_log2_le {n : Nat} (h : 0 < n) : (2 : ℚ) ^ (n.log2 : ℤ) ≤ n := by
  rw [zpow_natCast]
  exact_mod_cast Nat.log2_self_le h.ne'

lemma lt_two_pow_log2 (n : Nat) : (n : ℚ) < 2 ^ ((n.log2 : ℤ) + 1) := by
  exact_mod_cast @Nat.lt_log2_self n

/-- The whole part of the binary logarithm of a quotient. -/
lemma floorLog2_spec {num den : Nat} (hnum : 0 < num) (hden : 0 < den) :
    (2 : ℚ) ^ floorLog2 num den ≤ num / den ∧ (num / den : ℚ) < 2 ^ (floorLog2 num den + 1) := by
  have hden' : (0 : ℚ) < den := by exact_mod_cast hden
  have hbelow : (2 : ℚ) ^ ((num.log2 : ℤ) - den.log2 - 1) ≤ num / den := by
    rw [le_div_iff₀ hden']
    calc (2 : ℚ) ^ ((num.log2 : ℤ) - den.log2 - 1) * den
        ≤ 2 ^ ((num.log2 : ℤ) - den.log2 - 1) * 2 ^ ((den.log2 : ℤ) + 1) :=
          mul_le_mul_of_nonneg_left (lt_two_pow_log2 den).le (two_zpow_pos _).le
      _ = 2 ^ (num.log2 : ℤ) := by
          rw [← zpow_add₀ (by norm_num)]
          congr 1
          ring
      _ ≤ num := two_pow_log2_le hnum
  have habove : (num / den : ℚ) < 2 ^ ((num.log2 : ℤ) - den.log2 + 1) := by
    rw [div_lt_iff₀ hden']
    calc (num : ℚ) < 2 ^ ((num.log2 : ℤ) + 1) := lt_two_pow_log2 num
      _ = 2 ^ ((num.log2 : ℤ) - den.log2 + 1) * 2 ^ (den.log2 : ℤ) := by
          rw [← zpow_add₀ (by norm_num)]
          congr 1
          ring
      _ ≤ 2 ^ ((num.log2 : ℤ) - den.log2 + 1) * den :=
          mul_le_mul_of_nonneg_left (two_pow_log2_le hden) (two_zpow_pos _).le
  rw [floorLog2_eq num hden]
  split
  · exact ⟨‹_›, habove⟩
  · rw [sub_add_cancel]
    exact ⟨hbelow, not_le.mp ‹_›⟩

/-- The unit that is chosen for a canonical number of units is the one they have. -/
lemma Canonical.unit_eq {m num den : Nat} {e : Int} (h : Canonical m e) (hm : 0 < m)
    (hden : 0 < den) (heq : (num / den : ℚ) = m * 2 ^ e) :
    max (floorLog2 num den - 52) (-1074) = e := by
  have hden' : (0 : ℚ) < den := by exact_mod_cast hden
  have hnum : 0 < num := by
    have hpos : (0 : ℚ) < num / den := heq ▸ (units_pos_iff e).mpr hm
    have := (div_pos_iff_of_pos_right hden').mp hpos
    exact_mod_cast this
  obtain ⟨hlow, hhigh⟩ := floorLog2_spec hnum hden
  rw [heq] at hlow hhigh
  have hless : ∀ k : ℕ, m < 2 ^ k → floorLog2 num den < k + e := by
    intro k hk
    have hlt : (m * 2 ^ e : ℚ) < 2 ^ ((k : ℤ) + e) := by
      rw [zpow_add₀ (by norm_num), zpow_natCast]
      exact mul_lt_mul_of_pos_right (by exact_mod_cast hk) (two_zpow_pos e)
    exact (zpow_lt_zpow_iff_right₀ (by norm_num : (1 : ℚ) < 2)).mp (hlow.trans_lt hlt)
  have hbelow := hless 53 h.below
  by_cases hsmall : m < 2 ^ 52
  · have := hless 52 hsmall
    have := h.normal hsmall
    omega
  · have hle : (2 : ℚ) ^ ((52 : ℤ) + e) ≤ m * 2 ^ e := by
      rw [zpow_add₀ (by norm_num)]
      refine mul_le_mul_of_nonneg_right ?_ (two_zpow_pos e).le
      exact_mod_cast not_lt.mp hsmall
    have := (zpow_lt_zpow_iff_right₀ (by norm_num : (1 : ℚ) < 2)).mp (hle.trans_lt hhigh)
    have := h.least
    omega

/-- A quotient that a double stands for is converted into that double. -/
theorem Canonical.ofRatio_eq {m num den : Nat} {e : Int} (h : Canonical m e) (hden : 0 < den)
    (heq : (num / den : ℚ) = m * 2 ^ e) (negative : Bool) :
    ofRatio negative num den = ofCanonical negative m e := by
  have hden' : (den : ℚ) ≠ 0 := by exact_mod_cast hden.ne'
  have hcross : (num : ℚ) = m * 2 ^ e * den := by
    rw [← heq, div_mul_cancel₀ _ hden']
  suffices hbits : nearestBits num den = (e + 1074).toNat * 0x10000000000000 + m by
    rw [ofRatio, hbits, ofCanonical]
  rcases Nat.eq_zero_or_pos m with rfl | hm
  -- zero has no leading bit, and bits of its own
  · have hnum : num = 0 := by
      rw [Nat.cast_zero, zero_mul, zero_mul] at hcross
      exact_mod_cast hcross
    rw [nearestBits, if_pos hnum, h.normal (by decide)]
    rfl
  have hnum : num ≠ 0 := by
    rintro rfl
    rw [Nat.cast_zero, zero_div] at heq
    exact ((units_pos_iff e).mpr hm).ne heq
  rw [nearestBits, if_neg hnum, h.unit_eq hm hden heq]
  obtain ⟨hbelow, hleast, hgreatest, _⟩ := h
  cases e with
  | ofNat k =>
      -- the quotient is a whole number of units, so there is nothing to round
      have hq : roundHalfEven num (den <<< k) = m := by
        refine roundHalfEven_of_dvd (by rw [Nat.shiftLeft_eq]; positivity) ?_
        rw [Int.ofNat_eq_natCast, zpow_natCast] at hcross
        rw [Nat.shiftLeft_eq]
        have : (num : ℚ) = ((m * (den * 2 ^ k) : ℕ) : ℚ) := by
          rw [hcross]
          push_cast
          ring
        exact_mod_cast this
      dsimp only
      rw [hq]
      omega
  | negSucc k =>
      have hq : roundHalfEven (num <<< (k + 1)) den = m := by
        refine roundHalfEven_of_dvd hden ?_
        rw [zpow_negSucc] at hcross
        rw [Nat.shiftLeft_eq]
        have : ((num * 2 ^ (k + 1) : ℕ) : ℚ) = ((m * den : ℕ) : ℚ) := by
          push_cast
          rw [hcross]
          field_simp
        exact_mod_cast this
      dsimp only
      rw [hq]
      omega

/-! ### Doubles that stand for a number -/

/-- A finite double with a given sign and absolute value. -/
structure StandsFor (x : Double) (negative : Bool) (q : ℚ) : Prop where
  finite : x.isFinite = true
  sign : x.isNegative = negative
  size : x.absValue = q

lemma Canonical.standsFor {m : Nat} {e : Int} (h : Canonical m e) (negative : Bool) :
    (ofCanonical negative m e).StandsFor negative (m * 2 ^ e) := by
  obtain ⟨hfinite, hsign, hread⟩ := h.read negative
  obtain ⟨m', e', hread', _, hsize⟩ := magnitude?_eq_some hfinite
  rw [hread, Option.some.injEq, Prod.mk.injEq] at hread'
  obtain ⟨rfl, rfl⟩ := hread'
  exact ⟨hfinite, hsign, hsize⟩

/-- A quotient that some double stands for is converted exactly. -/
theorem ofRatio_exact {num den : Nat} (hden : 0 < den) (h : IsRepresentable (num / den))
    (negative : Bool) : (ofRatio negative num den).StandsFor negative (num / den) := by
  obtain ⟨m, e, hcanonical, heq⟩ := h
  rw [hcanonical.ofRatio_eq hden heq negative, heq]
  exact hcanonical.standsFor negative

/-- A whole number that some double stands for is converted exactly. -/
lemma ofRatio_one_exact {n : Nat} (h : IsRepresentable n) (negative : Bool) :
    (ofRatio negative n 1).StandsFor negative n := by
  rw [← div_one (n : ℚ), ← Nat.cast_one] at h ⊢
  exact ofRatio_exact Nat.one_pos h negative

end ArrayScript.Double
