import Mathlib.Algebra.Order.Floor.Semifield
import ArrayScript.Machine.Run
import ArrayScript.Proofs.Double.Hardware

/-!
The integer part of a double modulo `2^32`.

* `trunc_exact`, `rem_exact`: cutting off a fraction and taking a remainder lose nothing.
* `remEuclid_exact`: neither does bringing the remainder of a whole number up to a word.
* `toInt32Wrapping_exact`: the wrapped integer is the one of thirty-two bits that is congruent to
  the integer part, and it is the one the machine finds if the integer part is in range.
-/

namespace ArrayScript.Double

variable {x y : Double} {m n : Nat} {e : Int}

/-! ### Integer parts -/

/-- A number with its fraction cut off. -/
def towardZero (q : ℚ) : ℤ :=
  if q < 0 then ⌈q⌉ else ⌊q⌋

lemma towardZero_signed {q : ℚ} (h : 0 ≤ q) (negative : Bool) :
    towardZero (signed negative q) = if negative then -(⌊q⌋₊ : ℤ) else ⌊q⌋₊ := by
  cases negative with
  | false =>
      rw [signed, if_neg (by decide), towardZero, if_neg h.not_gt, if_neg (by decide),
        Int.natCast_floor_eq_floor h]
  | true =>
      rw [signed, if_pos rfl, towardZero, if_pos rfl, Int.natCast_floor_eq_floor h]
      rcases h.eq_or_lt with rfl | hpos
      · simp
      · rw [if_pos (neg_neg_of_pos hpos), Int.ceil_neg]

lemma absValue_nonneg (h : x.isFinite = true) : 0 ≤ x.absValue := by
  obtain ⟨m, e, _, _, hsize⟩ := magnitude?_eq_some h
  exact hsize ▸ units_nonneg m e

lemma floorScaled_eq (m : Nat) (e : Int) : floorScaled m e = ⌊(m * 2 ^ e : ℚ)⌋₊ := by
  cases e with
  | ofNat k =>
      rw [floorScaled, Nat.shiftLeft_eq, Int.ofNat_eq_natCast, zpow_natCast]
      exact_mod_cast (Nat.floor_natCast (R := ℚ) (m * 2 ^ k)).symm
  | negSucc k =>
      have hquotient : (m * 2 ^ Int.negSucc k : ℚ) = m / (2 ^ (k + 1) : ℕ) := by
        rw [zpow_negSucc, div_eq_mul_inv]
        push_cast
        rfl
      rw [hquotient, Nat.floor_div_eq_div, floorScaled, Nat.shiftRight_eq_div_pow]

/-- The integer part is that of the value. -/
theorem truncated?_eq (h : x.isFinite = true) : x.truncated? = some (towardZero x.value) := by
  obtain ⟨m, e, hread, _, hsize⟩ := magnitude?_eq_some h
  rw [value, towardZero_signed (absValue_nonneg h), hsize, ← floorScaled_eq, truncated?, hread]
  rfl

lemma towardZero_value {k : ℤ} (h : x.isFinite = true) (hk : x.truncated? = some k) :
    towardZero x.value = k :=
  Option.some.inj ((truncated?_eq h).symm.trans hk)

lemma isRepresentable_floor (h : x.isFinite = true) :
    IsRepresentable (⌊x.absValue⌋₊ : ℚ) := by
  obtain ⟨m, e, _, hcanonical, hsize⟩ := magnitude?_eq_some h
  rw [hsize, ← floorScaled_eq]
  cases e with
  | ofNat k =>
      refine ⟨m, k, hcanonical, ?_⟩
      rw [floorScaled, Nat.shiftLeft_eq, zpow_natCast]
      push_cast
      rfl
  | negSucc k =>
      exact isRepresentable_natCast ((Nat.shiftRight_le m (k + 1)).trans_lt hcanonical.below)

/-- Cutting off a fraction loses nothing. -/
theorem trunc_exact (h : x.isFinite = true) : x.trunc.StandsFor x.isNegative ⌊x.absValue⌋₊ := by
  obtain ⟨m, e, hread, _, hsize⟩ := magnitude?_eq_some h
  rw [trunc, hread]
  dsimp only
  rw [floorScaled_eq, ← hsize]
  exact ofRatio_one_exact (isRepresentable_floor h) x.isNegative

/-! ### Remainders -/

/-- What some double stands for is converted exactly from a number of units. -/
lemma ofScaled_exact (h : IsRepresentable (m * 2 ^ e)) (negative : Bool) :
    (ofScaled negative m e).StandsFor negative (m * 2 ^ e) := by
  cases e with
  | ofNat k =>
      have hwhole : (m * 2 ^ Int.ofNat k : ℚ) = (m <<< k : ℕ) := by
        rw [Int.ofNat_eq_natCast, zpow_natCast, Nat.shiftLeft_eq]
        push_cast
        rfl
      rw [hwhole] at h ⊢
      exact ofRatio_one_exact h negative
  | negSucc k =>
      have hquotient : (m * 2 ^ Int.negSucc k : ℚ) = m / (1 <<< (k + 1) : ℕ) := by
        rw [zpow_negSucc, Nat.one_shiftLeft, div_eq_mul_inv]
        push_cast
        rfl
      rw [hquotient] at h ⊢
      exact ofRatio_exact (by rw [Nat.one_shiftLeft]; positivity) h negative

/-- A remainder loses nothing: the quotient is cut off to an integer, and what is left is what
the result stands for. -/
theorem rem_exact (hx : x.isFinite = true) (hy : y.isFinite = true) (hpos : 0 < y.absValue) :
    (x.rem y).StandsFor x.isNegative
      (x.absValue - y.absValue * ⌊x.absValue / y.absValue⌋₊) := by
  obtain ⟨m, e, hreadx, hm, hsizex⟩ := magnitude?_eq_some hx
  obtain ⟨n, f, hready, hn, hsizey⟩ := magnitude?_eq_some hy
  have hn0 : 0 < n := (units_pos_iff f).mp (hsizey ▸ hpos)
  obtain ⟨a, ha⟩ : ∃ a, a = m <<< (e - min e f).toNat := ⟨_, rfl⟩
  obtain ⟨b, hb⟩ : ∃ b, b = n <<< (f - min e f).toNat := ⟨_, rfl⟩
  have hax : x.absValue = a * 2 ^ min e f := by
    rw [hsizex, ha, shiftLeft_mul m (min_le_left e f)]
  have hby : y.absValue = b * 2 ^ min e f := by
    rw [hsizey, hb, shiftLeft_mul n (min_le_right e f)]
  have hleft : x.absValue - y.absValue * ⌊x.absValue / y.absValue⌋₊ =
      (a % b : ℕ) * 2 ^ min e f := by
    have hsplit : (a : ℚ) = b * (a / b : ℕ) + (a % b : ℕ) := by
      exact_mod_cast (Nat.div_add_mod a b).symm
    rw [hax, hby, mul_div_mul_right _ _ (two_zpow_pos _).ne', Nat.floor_div_eq_div]
    linear_combination 2 ^ min e f * hsplit
  -- in the smaller unit one of the operands has few units, and the remainder has fewer
  have hfew : a % b < 2 ^ 53 := by
    rcases le_total e f with h | h
    · have : a = m := by
        rw [ha, min_eq_left h, sub_self]
        rfl
      exact (Nat.mod_le a b).trans_lt (this ▸ hm.below)
    · have : b = n := by
        rw [hb, min_eq_right h, sub_self]
        rfl
      exact (Nat.mod_lt a (this ▸ hn0)).trans (this ▸ hn.below)
  have hrep : IsRepresentable ((a % b : ℕ) * 2 ^ min e f) :=
    isRepresentable_of_lt hfew (le_min hm.least hn.least) ((min_le_left e f).trans hm.greatest)
  rw [hleft, rem, not_isNaN_of_isFinite hx, not_isNaN_of_isFinite hy, hreadx, hready]
  dsimp only
  rw [if_neg (by decide), if_neg (by decide), if_neg hn0.ne', ← ha, ← hb]
  exact ofScaled_exact hrep x.isNegative

/-! ### Words -/

lemma wordCount_standsFor : wordCount.StandsFor false (2 ^ 32 : ℕ) := by
  have hread : wordCount.magnitude? = some (2 ^ 52, -20) := by decide
  obtain ⟨m, e, hread', _, hsize⟩ := magnitude?_eq_some (x := wordCount) (by decide)
  rw [hread, Option.some.injEq, Prod.mk.injEq] at hread'
  obtain ⟨rfl, rfl⟩ := hread'
  exact ⟨by decide, by decide, hsize.trans (by norm_num)⟩

/-- The remainder of a whole number is that of whole numbers. -/
lemma rem_wordCount (h : x.isFinite = true) (hn : x.absValue = n) :
    (x.rem wordCount).StandsFor x.isNegative (n % 2 ^ 32 : ℕ) := by
  obtain ⟨hword, _, hsize⟩ := wordCount_standsFor
  have hexact := rem_exact h hword (by rw [hsize]; positivity)
  have hsplit : (n : ℚ) = (2 ^ 32 : ℕ) * (n / 2 ^ 32 : ℕ) + (n % 2 ^ 32 : ℕ) := by
    exact_mod_cast (Nat.div_add_mod n (2 ^ 32)).symm
  have hleft : x.absValue - wordCount.absValue * ⌊x.absValue / wordCount.absValue⌋₊ =
      (n % 2 ^ 32 : ℕ) := by
    rw [hn, hsize, Nat.floor_div_eq_div]
    linear_combination hsplit
  rwa [hleft] at hexact

lemma remEuclid_of_nonneg (h : (x.rem y).isFinite = true) (hle : 0 ≤ (x.rem y).value) :
    x.remEuclid y = x.rem y :=
  if_neg ((lt_zero_iff h).not.mpr hle.not_gt)

lemma remEuclid_of_neg (h : (x.rem y).isFinite = true) (hlt : (x.rem y).value < 0) :
    x.remEuclid y = (x.rem y).add y.abs :=
  if_pos ((lt_zero_iff h).mpr hlt)

/-- The remainder of a whole number, brought up to a word, loses nothing. It keeps the sign of
the number only if it is zero. -/
theorem remEuclid_exact {r : Nat} (h : x.isFinite = true) (hn : x.absValue = n)
    (hr : (r : ℤ) = x.withSign n % 2 ^ 32) :
    (x.remEuclid wordCount).StandsFor (x.isNegative && r == 0) r := by
  obtain ⟨hfinite, hsign, hsize⟩ := rem_wordCount h hn
  have hvalue : (x.rem wordCount).value = signed x.isNegative (n % 2 ^ 32 : ℕ) := by
    rw [value, hsign, hsize]
  rw [withSign] at hr
  cases hneg : x.isNegative with
  | false =>
      rw [hneg] at hr hvalue hsign
      rw [if_neg Bool.false_ne_true] at hr
      obtain rfl : r = n % 2 ^ 32 := by omega
      rw [remEuclid_of_nonneg hfinite (hvalue ▸ Nat.cast_nonneg _), Bool.false_and]
      exact ⟨hfinite, hsign, hsize⟩
  | true =>
      rw [hneg] at hr hvalue hsign
      rw [if_pos rfl] at hr
      rcases Nat.eq_zero_or_pos (n % 2 ^ 32) with hk | hk
      · obtain rfl : r = 0 := by omega
        rw [hk, Nat.cast_zero, signed_zero] at hvalue
        rw [remEuclid_of_nonneg hfinite hvalue.ge]
        exact ⟨hfinite, hsign, hk ▸ hsize⟩
      · -- the sum with the number of words is below it, hence exact
        have hless : n % 2 ^ 32 < 2 ^ 32 := Nat.mod_lt _ (by decide)
        have hbrought : r + n % 2 ^ 32 = 2 ^ 32 := by omega
        have hpos : 0 < r := by omega
        have hlt : (x.rem wordCount).value < 0 :=
          hvalue ▸ neg_neg_of_pos (by exact_mod_cast hk)
        have hword : wordCount.abs.value = (2 ^ 32 : ℕ) := by
          show wordCount.value = _
          rw [value, wordCount_standsFor.sign, wordCount_standsFor.size]
          rfl
        have hsum : (x.rem wordCount).value + wordCount.abs.value = signed false r := by
          have hcast : (r : ℚ) + (n % 2 ^ 32 : ℕ) = (2 ^ 32 : ℕ) := by exact_mod_cast hbrought
          rw [hvalue, hword]
          show -((n % 2 ^ 32 : ℕ) : ℚ) + (2 ^ 32 : ℕ) = r
          linear_combination -hcast
        rw [remEuclid_of_neg hfinite hlt, Bool.true_and, beq_false_of_ne hpos.ne']
        exact add_exact hfinite (by decide) (isRepresentable_natCast (by omega))
          (by exact_mod_cast hpos) hsum

/-- A word without sign is found exactly. -/
lemma toUInt32Saturating_eq {negative : Bool} {r : Nat} (h : x.StandsFor negative r)
    (hr : r < 2 ^ 32) (hzero : negative = true → r = 0) :
    x.toUInt32Saturating = UInt32.ofNat r := by
  have hvalue : towardZero x.value = r := by
    rw [value, h.sign, h.size, towardZero_signed r.cast_nonneg, Nat.floor_natCast]
    split
    · rw [hzero ‹_›]
      rfl
    · rfl
  rw [toUInt32Saturating, truncated?_eq h.finite, hvalue]
  dsimp only
  rw [Int.toNat_natCast, min_eq_left (by omega)]

/-- Congruent integers of thirty-two bits are equal. -/
lemma eq_of_modEq {a b : Int32} (h : a.toInt ≡ b.toInt [ZMOD 2 ^ 32]) : a = b := by
  have := a.le_toInt
  have := a.toInt_lt
  have := b.le_toInt
  have := b.toInt_lt
  rw [Int.ModEq] at h
  exact Int32.toInt_inj.mp (by omega)

/-- The wrapped integer is congruent to the integer part. -/
lemma toInt32Wrapping_modEq (h : x.isFinite = true) :
    x.toInt32Wrapping.toInt ≡ towardZero x.value [ZMOD 2 ^ 32] := by
  have htrunc := trunc_exact h
  obtain ⟨r, hr⟩ : ∃ r : ℕ, (r : ℤ) = x.trunc.withSign ⌊x.absValue⌋₊ % 2 ^ 32 :=
    ⟨_, Int.toNat_of_nonneg (Int.emod_nonneg _ (by decide))⟩
  have hless : r < 2 ^ 32 := by
    have := Int.emod_lt_of_pos (x.trunc.withSign ⌊x.absValue⌋₊) (by decide : (0 : ℤ) < 2 ^ 32)
    omega
  have hword := toUInt32Saturating_eq (remEuclid_exact htrunc.finite htrunc.size hr) hless
    fun hnegative => by simpa using (Bool.and_eq_true_iff.mp hnegative).2
  have hpart : towardZero x.value = x.trunc.withSign ⌊x.absValue⌋₊ := by
    rw [value, towardZero_signed (absValue_nonneg h), withSign, htrunc.sign]
  rw [toInt32Wrapping, if_pos h, hword, UInt32.toInt32_ofNat', Int32.toInt_ofNat', hpart,
    Int.ModEq, ← hr]
  exact Int.bmod_emod.trans (Int.emod_eq_of_lt r.cast_nonneg (Int.ofNat_lt.mpr hless))

lemma isFinite_of_isNaN (h : x.isNaN = true) : x.isFinite = false := by
  rw [isNaN, Bool.and_eq_true, beq_iff_eq] at h
  rw [isFinite, h.1]
  rfl

lemma magnitude?_of_not_isFinite (h : x.isFinite = false) : x.magnitude? = none := by
  rw [magnitude?, h]
  rfl

/-- Wrapping and saturating agree where there is nothing to wrap. -/
lemma toInt32Saturating_eq (h : x.isFinite = true) (hlow : -2 ^ 31 ≤ towardZero x.value)
    (hhigh : towardZero x.value < 2 ^ 31) : x.toInt32Saturating = x.toInt32Wrapping := by
  refine eq_of_modEq (Int.ModEq.trans ?_ (toInt32Wrapping_modEq h).symm)
  rw [toInt32Saturating, truncated?_eq h]
  dsimp only
  rw [clampInt32, min_eq_left (by omega), max_eq_right (by omega), Int32.toInt_ofInt]
  exact Int.bmod_emod

/-- The conversion of a double into an integer of thirty-two bits. Infinities and NaN are zero,
and any other double is the one integer congruent to its integer part modulo `2^32`. The machine
finds that integer too if the double is NaN or its integer part is in range. -/
theorem toInt32Wrapping_exact (x : Double) :
    (x.isFinite = false → x.toInt32Wrapping = 0) ∧
    (x.isFinite = true → ∀ n : Int32,
      n = x.toInt32Wrapping ↔ n.toInt ≡ towardZero x.value [ZMOD 2 ^ 32]) ∧
    (x.isNaN = true ∨
      x.isFinite = true ∧ -2 ^ 31 ≤ towardZero x.value ∧ towardZero x.value < 2 ^ 31 →
      ∀ rest slots memory, Machine.plain .i32TruncSatF64 ⟨.f64 x :: rest, slots, memory⟩ =
        .next ⟨.i32 x.toInt32Wrapping :: rest, slots, memory⟩) := by
  have hzero : x.isFinite = false → x.toInt32Wrapping = 0 := by
    intro h
    rw [toInt32Wrapping, h]
    rfl
  refine ⟨hzero, fun h n => ⟨?_, fun hn => ?_⟩, fun h rest slots memory => ?_⟩
  · rintro rfl
    exact toInt32Wrapping_modEq h
  · exact eq_of_modEq (hn.trans (toInt32Wrapping_modEq h).symm)
  · have hsaturating : x.toInt32Saturating = x.toInt32Wrapping := by
      rcases h with hnan | ⟨hfinite, hlow, hhigh⟩
      · have hnone := magnitude?_of_not_isFinite (isFinite_of_isNaN hnan)
        rw [hzero (isFinite_of_isNaN hnan), toInt32Saturating, truncated?, hnone, Option.map_none,
          hnan]
        rfl
      · exact toInt32Saturating_eq hfinite hlow hhigh
    have hrun : Machine.plain .i32TruncSatF64 ⟨.f64 x :: rest, slots, memory⟩ =
        .next ⟨.i32 x.toInt32Saturating :: rest, slots, memory⟩ := rfl
    rw [hrun, hsaturating]

/-- Negative infinity, `-4294967297.5`, and the subnormal below zero that is closest to it. -/
theorem toInt32Wrapping_samples :
    (⟨0xfff0000000000000⟩ : Double).toInt32Wrapping = 0 ∧
    (-1 : Int32) = (⟨0xc1f0000000180000⟩ : Double).toInt32Wrapping ∧
    Machine.plain .i32TruncSatF64 ⟨[.f64 ⟨0x8000000000000001⟩], #[], Memory.zeros 1⟩ =
      .next ⟨[.i32 (⟨0x8000000000000001⟩ : Double).toInt32Wrapping], #[], Memory.zeros 1⟩ := by
  have hpast : towardZero (⟨0xc1f0000000180000⟩ : Double).value = -4294967297 :=
    towardZero_value (by decide) (by decide)
  have hsmall : towardZero (⟨0x8000000000000001⟩ : Double).value = 0 :=
    towardZero_value (by decide) (by decide)
  refine ⟨(toInt32Wrapping_exact _).1 (by decide),
    ((toInt32Wrapping_exact _).2.1 (by decide) _).mpr ?_,
    (toInt32Wrapping_exact _).2.2 (.inr ⟨by decide, ?_, ?_⟩) _ _ _⟩
  · rw [hpast]
    decide
  · rw [hsmall]
    decide
  · rw [hsmall]
    decide

end ArrayScript.Double
