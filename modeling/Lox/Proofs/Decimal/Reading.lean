import Lox.Proofs.Decimal.Rounding

namespace Lox

open Float.Model Float.Model.UnpackedFloat

/-- The double that these parts make. -/
def double (u : UnpackedFloat) : Float := ⟨Float.Model.pack u⟩

theorem double_unpack (x : Float) : double x.toModel.unpack = x := by
  obtain ⟨⟨bits, hvalid⟩⟩ := x
  simp only [double, Float.Model.pack, Float.Model.unpack, Float.ofModel.injEq,
    Float.Model.mk.injEq]
  exact congrArg UInt64.ofBitVec (pack_unpack_of_valid hvalid)

namespace Quantity

/-- The natural number that a quantity is, if it is one. -/
def natural? : Quantity → Option Nat
  | .finite false m e => whole? m e
  | _ => none

theorem whole?_eq_some_iff {m n : Nat} {e : Int} : whole? m e = some n ↔ (m * 2 ^ e : ℚ) = n := by
  unfold whole?
  by_cases he : 0 ≤ e
  · obtain ⟨k, rfl⟩ := Int.eq_ofNat_of_zero_le he
    rw [if_pos he, Option.some.injEq, zpow_natCast]
    simp only [Int.toNat_natCast, Nat.pow_eq]
    norm_cast
  · obtain ⟨k, hk⟩ := Int.eq_ofNat_of_zero_le (show 0 ≤ -e by omega)
    obtain rfl : e = -k := by omega
    have hpos : 0 < 2 ^ k := Nat.two_pow_pos k
    rw [if_neg he, zpow_neg, zpow_natCast]
    simp only [neg_neg, Int.toNat_natCast, Nat.pow_eq]
    have hvalue : (m * (2 ^ k)⁻¹ : ℚ) = n ↔ m = n * 2 ^ k := by
      rw [mul_inv_eq_iff_eq_mul₀ (by positivity)]
      norm_cast
    rw [hvalue]
    split
    next hmod =>
      rw [Option.some.injEq, Nat.div_eq_iff_eq_mul_left hpos (Nat.dvd_of_mod_eq_zero hmod)]
    next hmod =>
      refine ⟨nofun, ?_⟩
      rintro rfl
      simp at hmod

end Quantity

/-- Its bits are moved to the front of the mantissa. -/
theorem shifted_natural {n : Nat} (hpos : 0 < n) (hn : n < 2 ^ 53) :
    2 ^ 52 ≤ n <<< (52 - n.log2) ∧ n <<< (52 - n.log2) < 2 ^ 53 := by
  have hlog : n.log2 < 53 := (Nat.log2_lt hpos.ne').mpr hn
  have hlow := Nat.log2_self_le hpos.ne'
  have hhigh := Nat.lt_log2_self (n := n)
  have hfull : 2 ^ n.log2 * 2 ^ (52 - n.log2) = 2 ^ 52 := by
    rw [← pow_add]
    congr 1
    omega
  rw [Nat.shiftLeft_eq]
  constructor
  · rw [← hfull]
    exact Nat.mul_le_mul_right _ hlow
  · calc n * 2 ^ (52 - n.log2)
        < 2 ^ (n.log2 + 1) * 2 ^ (52 - n.log2) :=
          Nat.mul_lt_mul_of_pos_right hhigh (by positivity)
      _ = 2 * (2 ^ n.log2 * 2 ^ (52 - n.log2)) := by ring
      _ = 2 ^ 53 := by rw [hfull]; norm_num

theorem isDouble_natural {n : Nat} (hpos : 0 < n) (hn : n < 2 ^ 53) :
    IsDouble (n <<< (52 - n.log2)) (n.log2 - 52) := by
  have hlog : n.log2 < 53 := (Nat.log2_lt hpos.ne').mpr hn
  obtain ⟨hfull, hlt⟩ := shifted_natural hpos hn
  exact ⟨by omega, hlt, by omega, by omega, .inl hfull⟩

theorem natural_value {n : Nat} (hn : n < 2 ^ 53) :
    ((n <<< (52 - n.log2) : ℕ) * 2 ^ ((n.log2 : ℤ) - 52) : ℚ) = n := by
  have hlog : n.log2 ≤ 52 := by
    by_cases hzero : n = 0
    · simp [hzero]
    · have hlt := (Nat.log2_lt hzero).mpr hn
      omega
  rw [Nat.shiftLeft_eq]
  push_cast
  rw [← zpow_natCast, mul_assoc, ← zpow_add₀ two_ne_zero,
    show ((52 - n.log2 : ℕ) : ℤ) + ((n.log2 : ℤ) - 52) = 0 by omega, zpow_zero, mul_one]

theorem toFloat_natural {n : Nat} (hpos : 0 < n) (hn : n < 2 ^ 53) :
    n.toUInt64.toFloat = double (.finite .positive (n <<< (52 - n.log2)) (n.log2 - 52)
      (isDouble_natural hpos hn).pos) := by
  have hd := isDouble_natural hpos hn
  have hlog : n.log2 < 53 := (Nat.log2_lt hpos.ne').mpr hn
  have htarget : Format.binary64.targetExponent (totalExponent n 0) = n.log2 - 52 := by
    rw [targetExponent_eq, totalExponent]
    omega
  have hnat : n.toUInt64.toNat = n := UInt64.toNat_ofNat_of_lt' (by
    show n < 2 ^ 64
    omega)
  have hround : UnpackedFloat.ofUInt64 .binary64 n.toUInt64 = roundWithAccuracy .binary64 .positive
      (n <<< (52 - n.log2)) (n.log2 - 52) .exact := by
    unfold UnpackedFloat.ofUInt64 UnpackedFloat.ofNat UnpackedFloat.ofInt UnpackedFloat.normalize
    rw [hnat, Int.compare_eq_gt.mpr (by omega)]
    simp only [UnpackedFloat.round, decreaseExponent, Int.toNat_natCast, htarget]
    congr 1
    · congr 1
      omega
    · omega
  show (⟨Float.Model.pack (UnpackedFloat.ofUInt64 .binary64 n.toUInt64)⟩ : Float) = _
  rw [hround, roundWithAccuracy_double .positive hd]
  rfl

/-- Every entry of the table is the power of ten it stands for. -/
theorem natural?_powersOfTen (p : Fin Float.exactlyRepresentablePowersOfTen.size) :
    (Quantity.ofFloat Float.exactlyRepresentablePowersOfTen[p]).natural? = some (10 ^ p.1) := by
  revert p
  decide +kernel

theorem unpack_of_natural? {x : Float} {n : Nat} (hn : 0 < n)
    (h : (Quantity.ofFloat x).natural? = some n) :
    ∃ m e, ∃ hm : 0 < m, x.toModel.unpack = .finite .positive m e hm ∧ (m * 2 ^ e : ℚ) = n := by
  unfold Quantity.ofFloat at h
  split at h
  · simp [Quantity.natural?] at h
  · simp [Quantity.natural?] at h
  next sign _ =>
    cases sign with
    | negative => simp [Quantity.natural?, Quantity.isNegative] at h
    | positive =>
      have hzero := Quantity.whole?_eq_some_iff.mp h
      rw [Nat.cast_zero, zero_mul] at hzero
      exact absurd (by exact_mod_cast hzero.symm) hn.ne'
  next sign m e hm hunpack =>
    cases sign with
    | negative => simp [Quantity.natural?, Quantity.isNegative] at h
    | positive => exact ⟨m, e, hm, hunpack, Quantity.whole?_eq_some_iff.mp h⟩

section Scientific

variable {n m p : Nat} {e k : Int}

theorem ten_zpow_le_two_zpow (hk : k ≤ 0) : (10 : ℚ) ^ k ≤ 2 ^ k := by
  obtain ⟨i, rfl⟩ : ∃ i : ℕ, k = -i := ⟨(-k).toNat, by omega⟩
  rw [zpow_neg, zpow_neg, zpow_natCast, zpow_natCast]
  exact inv_anti₀ (by positivity) (pow_le_pow_left₀ (by norm_num) (by norm_num) i)

theorem two_zpow_le_ten_zpow (hk : 0 ≤ k) : (2 : ℚ) ^ k ≤ 10 ^ k := by
  obtain ⟨i, rfl⟩ := Int.eq_ofNat_of_zero_le hk
  rw [zpow_natCast, zpow_natCast]
  exact pow_le_pow_left₀ (by norm_num) (by norm_num) i

theorem two_zpow_le_scientific (hn : 0 < n) (hk : 0 ≤ k) : (2 : ℚ) ^ k ≤ n * 10 ^ k := by
  have hone : (1 : ℚ) ≤ n := by exact_mod_cast hn
  exact (two_zpow_le_ten_zpow hk).trans (le_mul_of_one_le_left (by positivity) hone)

theorem scientific_lt_two_zpow (hk : k ≤ 0) : (n * 10 ^ k : ℚ) < 2 ^ ((n.log2 : ℤ) + 1 + k) := by
  rw [zpow_add₀ two_ne_zero]
  exact mul_lt_mul (lt_two_zpow_log2 n) (ten_zpow_le_two_zpow hk) (by positivity) (by positivity)

/-- What is read as a double has an exponent of ten that is neither too large nor too small. -/
theorem exponent_bounds (hn : 0 < n) (hd : IsDouble m e) (hv : RoundsTo (n * 10 ^ k) m e) :
    k ≤ 2048 ∧ -(2048 + (n.log2 : ℤ)) ≤ k := by
  have hleast := hd.least
  have hgreatest := hd.greatest
  constructor
  · by_contra hk
    have hlt := (two_zpow_le_scientific hn (by omega)).trans_lt (hv.lt hd)
    have hexp := (zpow_lt_zpow_iff_right₀ (by norm_num : (1 : ℚ) < 2)).mp hlt
    omega
  · by_contra hk
    have hlt := (hv.le hd).trans_lt (scientific_lt_two_zpow (by omega))
    have hexp := (zpow_lt_zpow_iff_right₀ (by norm_num : (1 : ℚ) < 2)).mp hlt
    omega

theorem pos_of_roundsTo (hd : IsDouble m e) (hv : RoundsTo (n * 10 ^ k) m e) : 0 < n := by
  rcases Nat.eq_zero_or_pos n with rfl | hn
  · have hle := hv.le hd
    have hpos : (0 : ℚ) < 2 ^ (e - 1) := by positivity
    push_cast at hle
    linarith
  · exact hn

theorem rounds_ofScientific (hn : 0 < n) (hhigh : k ≤ 2048) (hlow : -(2048 + (n.log2 : ℤ)) ≤ k) :
    Rounds (n * 10 ^ k) (UnpackedFloat.ofScientific .binary64 n k) := by
  unfold UnpackedFloat.ofScientific
  rw [dif_neg hn.ne', if_neg (by show ¬k > 2 ^ 11; omega),
    if_neg (by show ¬k < -(2 ^ 11 + (n.log2 : ℤ)); omega)]
  split
  next hk =>
    have hbits : Format.binary64.mantissaBits = 53 := rfl
    obtain ⟨i, rfl⟩ := Int.eq_ofNat_of_zero_le hk
    have hpow : 1 ≤ 10 ^ ((i : ℤ)).toNat := Nat.one_le_pow _ _ (by norm_num)
    have hroom : 2 ^ 52 ≤ n <<< 53 * 10 ^ ((i : ℤ)).toNat := by
      rw [Nat.shiftLeft_eq]
      calc 2 ^ 52 ≤ 1 * 2 ^ 53 * 1 := by norm_num
        _ ≤ n * 2 ^ 53 * 10 ^ ((i : ℤ)).toNat :=
          Nat.mul_le_mul (Nat.mul_le_mul_right _ hn) hpow
    have hvalue : (((n <<< 53 : ℕ) : ℚ) * 2 ^ (-(53 : ℕ) : ℤ) *
        (((10 ^ ((i : ℤ)).toNat : ℕ) : ℚ) * 2 ^ (0 : ℤ))) = n * 10 ^ (i : ℤ) := by
      rw [Nat.shiftLeft_eq]
      push_cast
      norm_num
      ring
    rw [← hvalue]
    exact rounds_mul _ _ hroom
  next hk =>
    obtain ⟨i, rfl⟩ : ∃ i : ℕ, k = -i := ⟨(-k).toNat, by omega⟩
    have hvalue : ((n : ℚ) * 2 ^ (0 : ℤ) / (((10 ^ (- -(i : ℤ)).toNat : ℕ) : ℚ) * 2 ^ (0 : ℤ))) =
        n * 10 ^ (-(i : ℤ)) := by
      simp [zpow_neg, div_eq_mul_inv]
    rw [← hvalue]
    exact rounds_div _ _

theorem unpack_powersOfTen (hp : p < Float.exactlyRepresentablePowersOfTen.size) :
    ∃ m e, ∃ hm : 0 < m, Float.exactlyRepresentablePowersOfTen[p].toModel.unpack =
      .finite .positive m e hm ∧ (m * 2 ^ e : ℚ) = 10 ^ p := by
  have hpower := natural?_powersOfTen ⟨p, hp⟩
  obtain ⟨m, e, hm, hunpack, hvalue⟩ := unpack_of_natural? (by positivity) hpower
  exact ⟨m, e, hm, hunpack, by simpa using hvalue⟩

/-- Short digits are a double, and so is a small power of ten; one operation is left. -/
theorem ofScientific_short (small : Bool) (hn : 0 < n) (hbits : n < 2 ^ 53) (hp : p ≤ 22) :
    ∃ u, Rounds (n * 10 ^ (if small then -(p : ℤ) else p)) u ∧
      Float.ofScientific n small p = double u := by
  have hd := isDouble_natural hn hbits
  have hnumber : n.toUInt64.toFloat.toModel.unpack =
      .finite .positive (n <<< (52 - n.log2)) (n.log2 - 52) hd.pos := by
    rw [toFloat_natural hn hbits]
    exact unpack_pack hd .positive
  obtain ⟨m', e', hm', hpower, hvalue⟩ := unpack_powersOfTen (Nat.lt_succ_of_le hp)
  have hfull : 2 ^ 52 ≤ n <<< (52 - n.log2) * m' :=
    (shifted_natural hn hbits).1.trans (Nat.le_mul_of_pos_right _ hm')
  unfold Float.ofScientific
  rw [dif_pos ⟨hbits, hp⟩]
  cases small with
  | true =>
    have hquotient : (n * 10 ^ (-(p : ℤ)) : ℚ) =
        (n <<< (52 - n.log2) : ℕ) * 2 ^ ((n.log2 : ℤ) - 52) / (m' * 2 ^ e') := by
      rw [natural_value hbits, hvalue, zpow_neg, zpow_natCast, div_eq_mul_inv]
    refine ⟨_, ?_, congrArg double (congrArg₂ (UnpackedFloat.div .binary64) hnumber hpower)⟩
    rw [if_pos rfl, hquotient]
    exact rounds_div _ _
  | false =>
    have hproduct : (n * 10 ^ (p : ℤ) : ℚ) =
        (n <<< (52 - n.log2) : ℕ) * 2 ^ ((n.log2 : ℤ) - 52) * (m' * 2 ^ e') := by
      rw [natural_value hbits, hvalue, zpow_natCast]
    refine ⟨_, ?_, congrArg double (congrArg₂ (UnpackedFloat.mul .binary64) hnumber hpower)⟩
    rw [if_neg Bool.false_ne_true, hproduct]
    exact rounds_mul _ _ hfull

theorem ofScientific_zero (small : Bool) (p : Nat) :
    Float.ofScientific 0 small p = double (.zero .positive) := by
  unfold Float.ofScientific
  split
  next hshort =>
    have hsize : p < Float.exactlyRepresentablePowersOfTen.size := Nat.lt_succ_of_le hshort.2
    obtain ⟨m', e', hm', hpower, -⟩ := unpack_powersOfTen hsize
    cases small with
    | true =>
      exact congrArg double (congrArg (UnpackedFloat.div .binary64 (.zero .positive)) hpower)
    | false =>
      exact congrArg double (congrArg (UnpackedFloat.mul .binary64 (.zero .positive)) hpower)
  next => rfl

/-- Reading rounds, unless there are no digits but zeros or the exponent is far out. -/
theorem ofScientific_cases (n : Nat) (small : Bool) (p : Nat) {k : Int}
    (hk : k = if small then -(p : ℤ) else p) :
    (n = 0 ∨ k < -(2048 + (n.log2 : ℤ))) ∧
      Float.ofScientific n small p = double (.zero .positive) ∨
    (0 < n ∧ 2048 < k) ∧ Float.ofScientific n small p = double (.infinity .positive) ∨
    ∃ u, Rounds (n * 10 ^ k) u ∧ Float.ofScientific n small p = double u := by
  rcases Nat.eq_zero_or_pos n with rfl | hn
  · exact .inl ⟨.inl rfl, ofScientific_zero small p⟩
  · by_cases hshort : n < 2 ^ 53 ∧ p ≤ 22
    · obtain ⟨u, hrounds, heq⟩ := ofScientific_short small hn hshort.1 hshort.2
      exact .inr (.inr ⟨u, hk ▸ hrounds, heq⟩)
    · have hexponent : (if small then Int.negOfNat p else Int.ofNat p) = k := by
        rw [hk]
        cases small <;> simp [Int.negOfNat_eq]
      have heq : Float.ofScientific n small p =
          double (UnpackedFloat.ofScientific .binary64 n k) := by
        unfold Float.ofScientific
        rw [dif_neg hshort, ← hexponent]
        rfl
      rw [heq]
      by_cases hhigh : 2048 < k
      · refine .inr (.inl ⟨⟨hn, hhigh⟩, ?_⟩)
        rw [UnpackedFloat.ofScientific, dif_neg hn.ne', if_pos (by show k > 2 ^ 11; omega)]
      · by_cases hlow : k < -(2048 + (n.log2 : ℤ))
        · refine .inl ⟨.inr hlow, ?_⟩
          rw [UnpackedFloat.ofScientific, dif_neg hn.ne', if_neg (by show ¬k > 2 ^ 11; omega),
            if_pos (by show k < -(2 ^ 11 + (n.log2 : ℤ)); omega)]
        · exact .inr (.inr ⟨_, rounds_ofScientific hn (by omega) (by omega), rfl⟩)

/-- Digits and an exponent of ten are read as the double in whose interval they lie. -/
theorem ofScientific_eq_double {small : Bool} (hd : IsDouble m e)
    (hv : RoundsTo (n * 10 ^ (if small then -(p : ℤ) else p)) m e) :
    Float.ofScientific n small p = double (.finite .positive m e hd.pos) := by
  have hn := pos_of_roundsTo hd hv
  have hbounds := exponent_bounds hn hd hv
  rcases ofScientific_cases n small p rfl with ⟨hzero, -⟩ | ⟨hlarge, -⟩ | ⟨u, hrounds, heq⟩
  · omega
  · omega
  · rw [heq, hrounds.eq_finite hd hv]

end Scientific

/-- Zero, a positive double or the positive infinity. -/
def Unsigned : UnpackedFloat → Prop
  | .notANumber => False
  | .infinity sign => sign = .positive
  | .zero sign => sign = .positive
  | .finite sign _ _ _ => sign = .positive

theorem Unsigned.quantity {x : Float} (h : Unsigned x.toModel.unpack) :
    Quantity.ofFloat x = .infinite false ∨ Quantity.ofFloat x = .finite false 0 0 ∨
      ∃ m e, IsDouble m e ∧ Quantity.ofFloat x = .finite false m e := by
  unfold Quantity.ofFloat
  cases hunpack : x.toModel.unpack with
  | notANumber =>
    rw [hunpack] at h
    cases h
  | infinity sign =>
    rw [hunpack] at h
    obtain rfl : sign = .positive := h
    exact .inl rfl
  | zero sign =>
    rw [hunpack] at h
    obtain rfl : sign = .positive := h
    exact .inr (.inl rfl)
  | finite sign m e hm =>
    rw [hunpack] at h
    obtain rfl : sign = .positive := h
    exact .inr (.inr ⟨m, e, isDouble_of_unpack hunpack, rfl⟩)

/-- Only the largest exponent stands for something that is not finite. -/
theorem unpack_packComponents {x : BitVec 11} (hx : x.toNat ≠ 2047) (z : BitVec 52) :
    Unsigned (UnpackedFloat.unpack .binary64 (packComponents .binary64 .positive x z)) ∧
      (UnpackedFloat.unpack .binary64 (packComponents .binary64 .positive x z)).isFinite := by
  by_cases hzero : x.toNat = 0
  · obtain rfl : x = 0#11 := BitVec.eq_of_toNat_eq hzero
    by_cases hz : 0 < z.toNat
    · rw [unpack_least hz]
      exact ⟨rfl, rfl⟩
    · obtain rfl : z = 0#52 := BitVec.eq_of_toNat_eq (by simp; omega)
      exact ⟨rfl, rfl⟩
  · rw [unpack_full hx hzero (by omega)]
    exact ⟨rfl, rfl⟩

/-- A mantissa and an exponent are packed as a finite double, unless the exponent is too large. -/
theorem unpack_pack_finite (m : Nat) (e : Int) (hm : 0 < m) :
    Unsigned (Float.Model.pack (.finite .positive m e hm)).unpack ∧
      ((Float.Model.pack (.finite .positive m e hm)).unpack.isFinite ↔ e ≤ 971) := by
  show Unsigned (UnpackedFloat.unpack .binary64 (UnpackedFloat.pack .binary64 _)) ∧
    ((UnpackedFloat.unpack .binary64 (UnpackedFloat.pack .binary64 _)).isFinite ↔ _)
  unfold UnpackedFloat.pack
  simp only [biased_exponent e]
  by_cases hlarge : 2048 ≤ (e + 1075).toNat + 1
  · rw [if_pos hlarge]
    refine ⟨rfl, iff_of_false ?_ (by omega)⟩
    decide
  · have hsmall : e ≤ 971 := by omega
    rw [if_neg hlarge, iff_true_right hsmall]
    split
    · refine unpack_packComponents ?_ _
      rw [BitVec.toNat_ofNat, Nat.mod_eq_of_lt] <;> omega
    · exact unpack_packComponents (by decide) _

theorem unsigned_unpack_pack {u : UnpackedFloat} (h : Unsigned u) :
    Unsigned (Float.Model.pack u).unpack := by
  cases u with
  | notANumber => cases h
  | infinity sign =>
    cases h
    rfl
  | zero sign =>
    cases h
    rfl
  | finite sign m e hm =>
    cases h
    exact (unpack_pack_finite m e hm).1

theorem Rounds.unsigned {v : ℚ} {u : UnpackedFloat} (h : Rounds v u) : Unsigned u := by
  obtain ⟨n, k, accuracy, rfl, -, -⟩ := h
  unfold roundWithAccuracy
  simp only
  split <;> rfl

theorem unsigned_ofScientific (n : Nat) (small : Bool) (p : Nat) :
    Unsigned (Float.ofScientific n small p).toModel.unpack := by
  rcases ofScientific_cases n small p rfl with ⟨-, heq⟩ | ⟨-, heq⟩ | ⟨u, hrounds, heq⟩
  · rw [heq]
    exact unsigned_unpack_pack rfl
  · rw [heq]
    exact unsigned_unpack_pack rfl
  · rw [heq]
    exact unsigned_unpack_pack hrounds.unsigned

end Lox
