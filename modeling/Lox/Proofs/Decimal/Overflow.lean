import Lox.Proofs.Decimal.Digits

namespace Lox

open Float.Model Float.Model.UnpackedFloat

/-- Half a place beyond the largest double. -/
def overflowBound : ℚ := 2 ^ 1024 - 2 ^ 970

theorem overflowBound_eq : overflowBound = (2 ^ 53 - 1 / 2) * 2 ^ (971 : ℤ) := by
  have hhigh : (2 : ℚ) ^ 1024 = 2 ^ 53 * 2 ^ 971 := by rw [← pow_add]
  have hlow : (2 : ℚ) ^ 971 = 2 ^ 970 * 2 := by rw [← pow_succ]
  have hcast : (2 : ℚ) ^ (971 : ℤ) = 2 ^ 971 := zpow_natCast 2 971
  rw [overflowBound, hcast, hhigh, hlow]
  generalize (2 : ℚ) ^ 970 = place
  ring

theorem overflowBound_div : overflowBound / 2 ^ (971 : ℤ) = 2 ^ 53 - 1 / 2 := by
  rw [overflowBound_eq, mul_div_cancel_right₀ _ (by positivity)]

theorem overflowBound_le : overflowBound ≤ 2 ^ (1024 : ℤ) := by
  rw [overflowBound_eq, show (1024 : ℤ) = 53 + 971 by norm_num, zpow_add₀ two_ne_zero]
  exact mul_le_mul_of_nonneg_right (by norm_num) (by positivity)

theorem le_overflowBound : 2 ^ (1023 : ℤ) ≤ overflowBound := by
  rw [overflowBound_eq, show (1023 : ℤ) = 52 + 971 by norm_num, zpow_add₀ two_ne_zero]
  exact mul_le_mul_of_nonneg_right (by norm_num) (by positivity)

section Shift

variable {v : ℚ} {n r : Nat} {k t : Int} {em : ExtendedMantissa}

theorem lt_two_zpow_totalExponent (h : Represents em (v / 2 ^ k)) :
    v < 2 ^ totalExponent em.mantissa k := by
  have hbits : ((em.mantissa + 1 : ℕ) : ℚ) ≤ ((2 ^ (em.mantissa.log2 + 1) : ℕ) : ℚ) := by
    exact_mod_cast Nat.lt_log2_self
  have hlt : v / 2 ^ k < 2 ^ ((em.mantissa.log2 + 1 : ℕ) : ℤ) := by
    rw [zpow_natCast]
    push_cast at hbits
    exact h.bounds.2.trans_le hbits
  refine (div_zpow_lt_iff ?_).mp hlt
  unfold totalExponent
  push_cast
  ring

/-- By how much the nearest integer is shifted again. -/
theorem shift_eq (hleast : -1074 ≤ t) :
    (Format.binary64.targetExponent (totalExponent r t) - t).toNat = r.log2 - 52 := by
  rw [targetExponent_eq, totalExponent]
  omega

/-- Below the bound the exponent stays in range. -/
theorem exponent_le (hk : k ≤ Format.binary64.targetExponent (totalExponent n k))
    (ht : t = Format.binary64.targetExponent (totalExponent n k))
    (h : Represents em (v / 2 ^ k)) (hn : em.mantissa = n) (hr : NearestEven r (v / 2 ^ t))
    (hv : v < overflowBound) : t + (r.log2 - 52 : ℕ) ≤ 971 := by
  subst hn
  rw [targetExponent_eq] at hk ht
  have htotal : em.mantissa ≠ 0 → totalExponent em.mantissa k ≤ 1024 := fun hne =>
    totalExponent_le h hne (hv.trans_le overflowBound_le)
  have hzero : em.mantissa = 0 → totalExponent em.mantissa k = 1 + k := fun hz => by
    rw [hz]
    rfl
  have hle : t ≤ 971 := by
    by_cases hne : em.mantissa = 0
    · have hone := hzero hne
      omega
    · have hmost := htotal hne
      omega
  have hbits : ∀ i : ℕ, (r : ℚ) < 2 ^ i → i ≠ 0 → r.log2 < i := by
    intro i hi hpos
    by_cases hne : r = 0
    · rw [hne]
      exact Nat.pos_of_ne_zero hpos
    · exact (Nat.log2_lt hne).mpr (by exact_mod_cast hi)
  obtain ⟨hlow, -⟩ := hr.weak
  by_cases hlast : t = 971
  · have hq : v / 2 ^ t < 2 ^ 53 - 1 / 2 := by
      rw [hlast, ← overflowBound_div]
      exact div_lt_div_of_pos_right hv (by positivity)
    have hlog := hbits 53 (by linarith) (by decide)
    omega
  · have hq : v / 2 ^ t < 2 ^ ((53 : ℕ) : ℤ) := by
      refine (div_zpow_lt_iff rfl).mpr ?_
      refine (lt_two_zpow_totalExponent h).trans_le (zpow_le_zpow_right₀ (by norm_num) ?_)
      omega
    rw [zpow_natCast] at hq
    have hlog := hbits 54 (by linarith) (by decide)
    omega

/-- From the bound on the exponent is out of range, and something of the mantissa is left. -/
theorem lt_exponent (hk : k ≤ Format.binary64.targetExponent (totalExponent n k))
    (ht : t = Format.binary64.targetExponent (totalExponent n k))
    (h : Represents em (v / 2 ^ k)) (hn : em.mantissa = n) (hr : NearestEven r (v / 2 ^ t))
    (hv : overflowBound ≤ v) : 971 < t + (r.log2 - 52 : ℕ) ∧ 2 ^ (r.log2 - 52) ≤ r := by
  subst hn
  rw [targetExponent_eq] at hk ht
  have hlarge : (2 : ℚ) ^ (1023 : ℤ) ≤ v := le_overflowBound.trans hv
  have hle : 971 ≤ t := by
    by_cases hshort : k ≤ 1023
    · have hlt := lt_totalExponent h hshort hlarge
      omega
    · omega
  have hne : em.mantissa ≠ 0 := fun hz => by
    rw [hz] at ht hk
    simp only [totalExponent, Nat.log2_zero] at ht hk
    omega
  have hfull : (2 : ℚ) ^ (52 : ℤ) ≤ v / 2 ^ t := by
    rw [totalExponent] at ht
    refine (le_div_zpow_iff (show 52 + t = em.mantissa.log2 + k by omega)).mpr ?_
    exact (le_div_zpow_iff rfl).mp ((two_zpow_log2_le hne).trans h.bounds.1)
  have hbits : 2 ^ 52 ≤ r := hr.le (by exact_mod_cast hfull)
  have hpos : r ≠ 0 := by
    have htwo := Nat.two_pow_pos 52
    omega
  have hlog := (Nat.le_log2 hpos).mpr hbits
  refine ⟨?_, (Nat.pow_le_pow_right (by decide) (Nat.sub_le _ _)).trans (Nat.log2_self_le hpos)⟩
  by_cases hlast : t = 971
  · have hq : 2 ^ 53 - 1 / 2 ≤ v / 2 ^ t := by
      rw [hlast, ← overflowBound_div]
      exact div_le_div_of_nonneg_right hv (by positivity)
    have hcarry : 2 ^ 53 - 1 < r := by
      refine hr.lt (by decide) (le_trans ?_ hq)
      norm_num
    have hlog' := (Nat.le_log2 hpos).mpr (show 2 ^ 53 ≤ r by omega)
    omega
  · omega

end Shift

/-- What is rounded is finite exactly below the bound. -/
theorem Rounds.isFinite_iff {v : ℚ} {u : UnpackedFloat} (h : Rounds v u) :
    (Float.Model.pack u).unpack.isFinite ↔ v < overflowBound := by
  obtain ⟨n, k, accuracy, rfl, hrepresents, hk⟩ := h
  obtain ⟨t, ht⟩ : ∃ t, t = Format.binary64.targetExponent (totalExponent n k) := ⟨_, rfl⟩
  obtain ⟨r, hr, hend⟩ := roundWithAccuracy_shift .positive hrepresents hk
  have hn := mantissa_ofMantissaAndAccuracy n accuracy
  have hleast : -1074 ≤ t := by
    rw [targetExponent_eq] at ht
    omega
  have hsecond : shiftToTargetExponent .binary64 r t .exact =
      (ExtendedMantissa.ofMantissaAndAccuracy r .exact >>> (r.log2 - 52), t + (r.log2 - 52 : ℕ)) :=
    shiftToTargetExponent_eq _ (shift_eq hleast)
  rw [← ht] at hr hend
  rw [hend _ _ hsecond]
  by_cases hv : v < overflowBound
  · have hle := exponent_le hk ht hrepresents hn hr hv
    rw [iff_true_right hv]
    split
    · decide
    · exact (unpack_pack_finite _ _ _).2.mpr hle
  · obtain ⟨hlt, hpow⟩ := lt_exponent hk ht hrepresents hn hr (not_lt.mp hv)
    rw [iff_false_right hv]
    have hne :
        (ExtendedMantissa.ofMantissaAndAccuracy r .exact >>> (r.log2 - 52)).mantissa ≠ 0 := by
      intro hz
      obtain ⟨-, hhigh⟩ := ((Represents.whole r).shiftRight (r.log2 - 52)).bounds
      rw [hz, Nat.cast_zero, zero_add, div_lt_iff₀ (by positivity), one_mul] at hhigh
      have hless : r < 2 ^ (r.log2 - 52) := by exact_mod_cast hhigh
      omega
    rw [dif_neg hne, (unpack_pack_finite _ _ _).2]
    omega

theorem isFinite_ofScientific (n : Nat) (small : Bool) (p : Nat) :
    (Float.ofScientific n small p).isFinite ↔
      (n * 10 ^ (if small then -(p : ℤ) else p) : ℚ) < overflowBound := by
  obtain ⟨k, hk⟩ : ∃ k, k = if small then -(p : ℤ) else p := ⟨_, rfl⟩
  rw [← hk]
  rcases ofScientific_cases n small p hk with ⟨htiny, heq⟩ | ⟨⟨hn, hlarge⟩, heq⟩ |
    ⟨u, hrounds, heq⟩
  · have hpow : (1 : ℚ) ≤ 2 ^ (1023 : ℤ) := one_le_zpow₀ (by norm_num) (by norm_num)
    have hless : (n * 10 ^ k : ℚ) < 1 := by
      rcases htiny with rfl | htiny
      · norm_num
      · refine (scientific_lt_two_zpow (by omega)).trans_le ?_
        exact zpow_le_one_of_nonpos₀ (by norm_num) (by omega)
    rw [heq, iff_true_right (hless.trans_le (hpow.trans le_overflowBound))]
    rfl
  · have hpow : (2 : ℚ) ^ (1024 : ℤ) ≤ 2 ^ k := zpow_le_zpow_right₀ (by norm_num) (by omega)
    have hle := overflowBound_le.trans (hpow.trans (two_zpow_le_scientific hn (by omega)))
    rw [heq, iff_false_right (not_lt.mpr hle)]
    decide
  · rw [heq]
    exact hrounds.isFinite_iff

theorem isFinite_numeralValue (whole places : List Char) :
    (numeralValue whole places).isFinite ↔ writtenValue whole places < overflowBound := by
  have hfinite := isFinite_ofScientific (digitsValue (whole ++ places)) true places.length
  rwa [if_pos rfl] at hfinite

end Lox
