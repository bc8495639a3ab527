import Lox.Decimal.Shortest
import Lox.Proofs.Decimal.Double

namespace Lox

open Float.Model Float.Model.UnpackedFloat

/-- Does the interval hold so many quarters of a place? -/
def Neighbourhood.Covers (n : Neighbourhood) (q : ℚ) : Prop :=
  if n.closed then (n.low : ℚ) ≤ q ∧ q ≤ n.high else (n.low : ℚ) < q ∧ q < n.high

/-- The double that is nearest to `v`, or the even one of two, is `m · 2 ^ e`. -/
def RoundsTo (v : ℚ) (m : Nat) (e : Int) : Prop :=
  (Neighbourhood.ofDouble m e).Covers (v / 2 ^ (e - 2))

/-- The integer that is nearest to `q`, or the even one of two, is `r`. -/
def NearestEven (r : Nat) (q : ℚ) : Prop :=
  if r % 2 = 0 then (r : ℚ) - 1 / 2 ≤ q ∧ q ≤ r + 1 / 2 else (r : ℚ) - 1 / 2 < q ∧ q < r + 1 / 2

theorem NearestEven.weak {r : Nat} {q : ℚ} (h : NearestEven r q) :
    (r : ℚ) - 1 / 2 ≤ q ∧ q ≤ r + 1 / 2 := by
  unfold NearestEven at h
  split at h
  · exact h
  · exact ⟨h.1.le, h.2.le⟩

/-- No integer up to `q` is beyond the nearest one. -/
theorem NearestEven.le {r n : Nat} {q : ℚ} (h : NearestEven r q) (hn : (n : ℚ) ≤ q) : n ≤ r := by
  obtain ⟨-, hhigh⟩ := h.weak
  have hlt : (n : ℚ) < (r + 1 : ℕ) := by
    push_cast
    linarith
  exact Nat.lt_succ_iff.mp (by exact_mod_cast hlt)

/-- The middle behind an odd integer is nearest to the even one of two, which is the upper one. -/
theorem NearestEven.lt {r n : Nat} {q : ℚ} (h : NearestEven r q) (hodd : n % 2 = 1)
    (hn : (n : ℚ) + 1 / 2 ≤ q) : n < r := by
  refine lt_of_le_of_ne (h.le (by linarith)) ?_
  rintro rfl
  unfold NearestEven at h
  rw [if_neg (by omega)] at h
  linarith [h.2]

theorem NearestEven.unique {r r' : Nat} {q : ℚ} (h : NearestEven r q) (h' : NearestEven r' q) :
    r = r' := by
  wlog hlt : r < r' generalizing r r'
  · rcases Nat.lt_trichotomy r r' with hlt' | heq | hgt
    · exact absurd hlt' hlt
    · exact heq
    · exact (this h' h hgt).symm
  -- Both are nearest only half-way between them, and then one of them is odd.
  have hle : (r : ℚ) + 1 ≤ r' := by exact_mod_cast hlt
  obtain ⟨-, hhigh⟩ := h.weak
  obtain ⟨hlow, -⟩ := h'.weak
  have hnext : r' = r + 1 := by
    have heq : (r' : ℚ) = r + 1 := by linarith
    exact_mod_cast heq
  subst hnext
  unfold NearestEven at h h'
  push_cast at h' hlow
  split at h
  · rw [if_neg (by omega)] at h'
    linarith [h'.1]
  · linarith [h.2]

/-- A mantissa with two bits stands for `q`: the round bit is a half, and the sticky bit something
less. -/
def Represents (em : ExtendedMantissa) (q : ℚ) : Prop :=
  ∃ rest : ℚ, 0 ≤ rest ∧ rest < 1 / 2 ∧ (em.stickyBit = true ↔ 0 < rest) ∧
    q = em.mantissa + (if em.roundBit then 1 / 2 else 0) + rest

theorem mantissa_ofMantissaAndAccuracy (n : Nat) (accuracy : Accuracy) :
    (ExtendedMantissa.ofMantissaAndAccuracy n accuracy).mantissa = n := by
  rcases accuracy with _ | order
  · rfl
  · cases order <;> rfl

namespace Represents

variable {em : ExtendedMantissa} {q : ℚ}

theorem whole (m : Nat) : Represents (.ofMantissaAndAccuracy m .exact) m :=
  ⟨0, le_rfl, by norm_num, by simp [ExtendedMantissa.ofMantissaAndAccuracy],
    by simp [ExtendedMantissa.ofMantissaAndAccuracy]⟩

/-- The quotient and how its remainder compares with half of the divisor. -/
theorem quotient (m : Nat) {n : Nat} (hn : 0 < n) :
    Represents (.ofMantissaAndAccuracy (m / n) (accuracyOfFraction (m % n) n)) (m / n : ℚ) := by
  have hn' : (0 : ℚ) < n := by exact_mod_cast hn
  have hmod : (m % n : ℕ) < n := Nat.mod_lt m hn
  have hsplit : (m / n : ℚ) = (m / n : ℕ) + ((m % n : ℕ) : ℚ) / n := by
    have h : ((n * (m / n) + m % n : ℕ) : ℚ) = m := by rw [Nat.div_add_mod]
    push_cast at h
    field_simp
    linarith
  rw [hsplit]
  unfold accuracyOfFraction
  by_cases hzero : m % n = 0
  · rw [if_pos hzero, hzero]
    simpa using whole (m / n)
  · rw [if_neg hzero]
    have hpos : (0 : ℚ) < (m % n : ℕ) := by exact_mod_cast Nat.pos_of_ne_zero hzero
    have hlt : ((m % n : ℕ) : ℚ) < n := by exact_mod_cast hmod
    rcases hcompare : compare (2 * (m % n)) n with _ | _ | _
    · have h : ((2 * (m % n) : ℕ) : ℚ) < n := by exact_mod_cast Nat.compare_eq_lt.mp hcompare
      push_cast at h
      refine ⟨((m % n : ℕ) : ℚ) / n, by positivity, ?_, ?_, ?_⟩
      · rw [div_lt_div_iff₀ hn' (by norm_num)]
        linarith
      · simp [ExtendedMantissa.ofMantissaAndAccuracy, hn', hpos]
      · simp [ExtendedMantissa.ofMantissaAndAccuracy]
    · have h : ((2 * (m % n) : ℕ) : ℚ) = n := by exact_mod_cast Nat.compare_eq_eq.mp hcompare
      push_cast at h
      refine ⟨0, le_rfl, by norm_num, ?_, ?_⟩
      · simp [ExtendedMantissa.ofMantissaAndAccuracy]
      · simp only [ExtendedMantissa.ofMantissaAndAccuracy, if_true, add_zero, add_right_inj]
        rw [div_eq_div_iff hn'.ne' (by norm_num)]
        linarith
    · have h : (n : ℚ) < ((2 * (m % n) : ℕ) : ℚ) := by
        exact_mod_cast Nat.compare_eq_gt.mp hcompare
      push_cast at h
      refine ⟨((m % n : ℕ) : ℚ) / n - 1 / 2, ?_, ?_, ?_, ?_⟩
      · rw [sub_nonneg, div_le_div_iff₀ (by norm_num) hn']
        linarith
      · rw [sub_lt_iff_lt_add, div_lt_iff₀ hn']
        linarith
      · have hhalf : (1 / 2 : ℚ) < ((m % n : ℕ) : ℚ) / n := by
          rw [div_lt_div_iff₀ (by norm_num) hn']
          linarith
        simpa [ExtendedMantissa.ofMantissaAndAccuracy] using hhalf
      · simp only [ExtendedMantissa.ofMantissaAndAccuracy, if_true]
        ring

theorem shiftRightOne (h : Represents em q) : Represents em.shiftRightOne (q / 2) := by
  obtain ⟨rest, hnonneg, hlt, hsticky, rfl⟩ := h
  have hsplit : (em.mantissa : ℚ) = 2 * (em.mantissa / 2 : ℕ) + (em.mantissa % 2 : ℕ) := by
    have h : ((2 * (em.mantissa / 2) + em.mantissa % 2 : ℕ) : ℚ) = em.mantissa := by
      rw [Nat.div_add_mod]
    push_cast at h ⊢
    linarith
  refine ⟨(if em.roundBit then 1 / 4 else 0) + rest / 2, ?_, ?_, ?_, ?_⟩
  · split <;> linarith
  · split <;> linarith
  · simp only [ExtendedMantissa.shiftRightOne, Bool.or_eq_true, hsticky]
    cases em.roundBit <;> simp
    linarith
  · simp only [ExtendedMantissa.shiftRightOne, hsplit]
    rcases Nat.mod_two_eq_zero_or_one em.mantissa with hmod | hmod <;>
      cases em.roundBit <;> simp [hmod] <;> ring

theorem shiftRight (h : Represents em q) (n : Nat) : Represents (em >>> n) (q / 2 ^ n) := by
  show Represents (n.repeat ExtendedMantissa.shiftRightOne em) _
  induction n with
  | zero => simpa [Nat.repeat] using h
  | succ n ih =>
    have hone := ih.shiftRightOne
    rwa [div_div, ← pow_succ] at hone

theorem bounds (h : Represents em q) : (em.mantissa : ℚ) ≤ q ∧ q < em.mantissa + 1 := by
  obtain ⟨rest, hnonneg, hlt, -, rfl⟩ := h
  split <;> constructor <;> linarith

theorem nearestEven (h : Represents em q) : NearestEven em.roundedMantissa q := by
  obtain ⟨rest, hnonneg, hlt, hsticky, rfl⟩ := h
  obtain ⟨m, round, sticky⟩ := em
  cases round with
  | false =>
    have hrounded : (ExtendedMantissa.mk m false sticky).roundedMantissa = m := by
      cases sticky <;> rfl
    rw [hrounded]
    unfold NearestEven
    split <;> constructor <;> simp <;> linarith
  | true =>
    cases sticky with
    | false =>
      have hrest : rest = 0 := by
        have hnot : ¬0 < rest := fun hpos => by simpa using hsticky.mpr hpos
        linarith
      have hrounded : (ExtendedMantissa.mk m true false).roundedMantissa = m + m % 2 := rfl
      rw [hrounded, hrest]
      have heven : (m + m % 2) % 2 = 0 := by omega
      unfold NearestEven
      rw [if_pos heven]
      rcases Nat.mod_two_eq_zero_or_one m with hmod | hmod <;>
        constructor <;> simp [hmod] <;> linarith
    | true =>
      have hpos : 0 < rest := hsticky.mp rfl
      have hrounded : (ExtendedMantissa.mk m true true).roundedMantissa = m + 1 := rfl
      rw [hrounded]
      unfold NearestEven
      split <;> constructor <;> simp <;> linarith

end Represents

theorem le_div_zpow_iff {v : ℚ} {i j k : Int} (h : i + k = j) :
    (2 : ℚ) ^ i ≤ v / 2 ^ k ↔ 2 ^ j ≤ v := by
  rw [le_div_iff₀ (by positivity), ← zpow_add₀ two_ne_zero, h]

theorem div_zpow_lt_iff {v : ℚ} {i j k : Int} (h : i + k = j) :
    v / 2 ^ k < 2 ^ i ↔ v < 2 ^ j := by
  rw [div_lt_iff₀ (by positivity), ← zpow_add₀ two_ne_zero, h]

theorem lt_two_zpow_log2 (n : Nat) : (n : ℚ) < 2 ^ ((n.log2 : ℤ) + 1) := by
  have hlt : (n : ℚ) < ((2 ^ (n.log2 + 1) : ℕ) : ℚ) := by exact_mod_cast Nat.lt_log2_self
  exact_mod_cast hlt

theorem two_zpow_log2_le {n : Nat} (hn : n ≠ 0) : (2 : ℚ) ^ (n.log2 : ℤ) ≤ n := by
  have hle : ((2 ^ n.log2 : ℕ) : ℚ) ≤ n := by exact_mod_cast Nat.log2_self_le hn
  exact_mod_cast hle

theorem div_zpow_add (v : ℚ) (k : Int) (n : Nat) : v / 2 ^ (k + n) = v / 2 ^ k / 2 ^ n := by
  rw [zpow_add₀ two_ne_zero, zpow_natCast, div_div]

/-- Below a power of two the interval ends twice as near, unless the double is one of the least. -/
theorem low_ofDouble {m : Nat} {e : Int} (hm : 0 < m) :
    ((Neighbourhood.ofDouble m e).low : ℚ) =
      4 * m - if m = 2 ^ 52 ∧ -1074 < e then 1 else 2 := by
  by_cases h : m = 2 ^ 52 ∧ -1074 < e
  · have hlow : (Neighbourhood.ofDouble m e).low = 4 * m - 1 := if_pos h
    rw [hlow, if_pos h, Nat.cast_sub (by omega)]
    push_cast
    rfl
  · have hlow : (Neighbourhood.ofDouble m e).low = 4 * m - 2 := if_neg h
    rw [hlow, if_neg h, Nat.cast_sub (by omega)]
    push_cast
    rfl

namespace RoundsTo

variable {v : ℚ} {m : Nat} {e : Int}

/-- The ends in quarters of a place; they belong to the interval if the mantissa is even. -/
theorem bounds (hm : 0 < m) (h : RoundsTo v m e) :
    4 * (m : ℚ) - (if m = 2 ^ 52 ∧ -1074 < e then 1 else 2) ≤ v / 2 ^ (e - 2) ∧
      v / 2 ^ (e - 2) ≤ 4 * m + 2 ∧
      (m % 2 = 1 → 4 * (m : ℚ) - 2 < v / 2 ^ (e - 2) ∧ v / 2 ^ (e - 2) < 4 * m + 2) := by
  have hhigh : ((Neighbourhood.ofDouble m e).high : ℚ) = 4 * m + 2 := by
    simp [Neighbourhood.ofDouble]
  have hclosed : (Neighbourhood.ofDouble m e).closed = decide (m % 2 = 0) := rfl
  unfold RoundsTo Neighbourhood.Covers at h
  rw [low_ofDouble hm, hhigh, hclosed] at h
  by_cases heven : m % 2 = 0
  · rw [if_pos (by simpa using heven)] at h
    exact ⟨h.1, h.2, by omega⟩
  · have hnarrow : ¬(m = 2 ^ 52 ∧ -1074 < e) := by
      rintro ⟨rfl, -⟩
      norm_num at heven
    rw [if_neg (by simpa using heven)] at h
    rw [if_neg hnarrow] at h ⊢
    exact ⟨h.1.le, h.2.le, fun _ => h⟩

theorem lt (hd : IsDouble m e) (h : RoundsTo v m e) : v < 2 ^ (53 + e) := by
  have hm : (m : ℚ) + 1 ≤ 2 ^ 53 := by exact_mod_cast hd.lt
  obtain ⟨-, hhigh, -⟩ := h.bounds hd.pos
  refine (div_zpow_lt_iff (show 55 + (e - 2) = 53 + e by omega)).mp (hhigh.trans_lt ?_)
  norm_num at hm ⊢
  linarith

theorem le (hd : IsDouble m e) (h : RoundsTo v m e) : 2 ^ (e - 1) ≤ v := by
  have hm : (1 : ℚ) ≤ m := by exact_mod_cast hd.pos
  obtain ⟨hlow, -, -⟩ := h.bounds hd.pos
  refine (le_div_zpow_iff (show 1 + (e - 2) = e - 1 by omega)).mp (le_trans ?_ hlow)
  rw [zpow_one]
  split <;> linarith

/-- A double is the nearest one on its own grid. Only below a power of two the grid is finer, and
there the power is the nearest point. -/
theorem nearest (hd : IsDouble m e) (h : RoundsTo v m e) :
    ((2 ^ (52 + e) ≤ v ∨ e = -1074) ∧ NearestEven m (v / 2 ^ e)) ∨
      (m = 2 ^ 52 ∧ -1074 < e ∧ 2 ^ (51 + e) ≤ v ∧ v < 2 ^ (52 + e) ∧
        NearestEven (2 ^ 53) (v / 2 ^ (e - 1))) := by
  obtain ⟨hlow, hhigh, hstrict⟩ := h.bounds hd.pos
  have hquarter : v / 2 ^ e = v / 2 ^ (e - 2) / 4 := by
    have hsplit := div_zpow_add v (e - 2) 2
    rw [show e - 2 + (2 : ℕ) = e by omega] at hsplit
    rw [hsplit]
    norm_num
  have hhalf : v / 2 ^ (e - 1) = v / 2 ^ (e - 2) / 2 := by
    have hsplit := div_zpow_add v (e - 2) 1
    rw [show e - 2 + (1 : ℕ) = e - 1 by omega] at hsplit
    rw [hsplit]
    norm_num
  have hfull : 2 ^ (52 + e) ≤ v ↔ (2 : ℚ) ^ (54 : ℤ) ≤ v / 2 ^ (e - 2) :=
    (le_div_zpow_iff (by omega)).symm
  rw [hquarter, hhalf, hfull, ← le_div_zpow_iff (show 53 + (e - 2) = 51 + e by omega),
    ← div_zpow_lt_iff (show 54 + (e - 2) = 52 + e by omega)]
  generalize v / 2 ^ (e - 2) = y at hlow hhigh hstrict
  by_cases hnarrow : m = 2 ^ 52 ∧ -1074 < e
  · obtain ⟨rfl, he⟩ := hnarrow
    rw [if_pos ⟨rfl, he⟩] at hlow
    push_cast at hlow hhigh
    by_cases hy : (2 : ℚ) ^ (54 : ℤ) ≤ y
    · refine .inl ⟨.inl hy, ?_⟩
      unfold NearestEven
      rw [if_pos (by norm_num)]
      norm_num at hy ⊢
      constructor <;> linarith
    · refine .inr ⟨rfl, he, ?_, lt_of_not_ge hy, ?_⟩
      · norm_num at hlow ⊢
        linarith
      · unfold NearestEven
        rw [if_pos (by norm_num)]
        norm_num at hy hlow ⊢
        constructor <;> linarith
  · rw [if_neg hnarrow] at hlow
    refine .inl ⟨?_, ?_⟩
    · by_cases he : e = -1074
      · exact .inr he
      · have hle := hd.least
        have hfull := hd.full.resolve_right he
        have hmore : 2 ^ 52 + 1 ≤ m := by omega
        have hmore' : (2 ^ 52 + 1 : ℚ) ≤ m := by exact_mod_cast hmore
        refine .inl (le_trans ?_ hlow)
        norm_num
        linarith
    · unfold NearestEven
      split
      · constructor <;> linarith
      next hodd =>
        obtain ⟨hlow', hhigh'⟩ := hstrict (by omega)
        constructor <;> linarith

end RoundsTo

theorem targetExponent_eq (t : Int) : Format.binary64.targetExponent t = max (t - 53) (-1074) := rfl

section Total

variable {v : ℚ} {m : Nat} {e j : Int} {em : ExtendedMantissa}

theorem totalExponent_le (h : Represents em (v / 2 ^ e)) (hm : em.mantissa ≠ 0) (hv : v < 2 ^ j) :
    totalExponent em.mantissa e ≤ j := by
  have hle := (two_zpow_log2_le hm).trans h.bounds.1
  have hlt := ((le_div_zpow_iff rfl).mp hle).trans_lt hv
  have hexp := (zpow_lt_zpow_iff_right₀ (by norm_num : (1 : ℚ) < 2)).mp hlt
  unfold totalExponent
  omega

theorem lt_totalExponent (h : Represents em (v / 2 ^ e)) (hj : e ≤ j) (hv : 2 ^ j ≤ v) :
    j < totalExponent em.mantissa e := by
  obtain ⟨n, hn⟩ := Int.eq_ofNat_of_zero_le (Int.sub_nonneg.mpr hj)
  have hle : (2 : ℚ) ^ (n : ℤ) ≤ v / 2 ^ e := (le_div_zpow_iff (by omega)).mpr hv
  rw [zpow_natCast] at hle
  have hlt : ((2 ^ n : ℕ) : ℚ) < ((em.mantissa + 1 : ℕ) : ℚ) := by
    push_cast
    exact hle.trans_lt h.bounds.2
  have hpow : 2 ^ n ≤ em.mantissa := by
    have hlt' : 2 ^ n < em.mantissa + 1 := by exact_mod_cast hlt
    omega
  have hne : em.mantissa ≠ 0 := by
    have hpos := Nat.two_pow_pos n
    omega
  have hlog := (Nat.le_log2 hne).mpr hpow
  unfold totalExponent
  omega

/-- The quotient is shifted to the grid of its double, or to the finer grid below it. -/
theorem target_of_roundsTo {m' : Nat} {e' : Int} (hd : IsDouble m' e') (hv : RoundsTo v m' e')
    (h : Represents em (v / 2 ^ e))
    (he : e ≤ Format.binary64.targetExponent (totalExponent em.mantissa e)) :
    (Format.binary64.targetExponent (totalExponent em.mantissa e) = e' ∧
      NearestEven m' (v / 2 ^ e')) ∨
    (Format.binary64.targetExponent (totalExponent em.mantissa e) = e' - 1 ∧ m' = 2 ^ 52 ∧
      -1074 < e' ∧ NearestEven (2 ^ 53) (v / 2 ^ (e' - 1))) := by
  have hleast := hd.least
  rw [targetExponent_eq] at he ⊢
  have htotal : em.mantissa ≠ 0 → totalExponent em.mantissa e ≤ 53 + e' :=
    fun hne => totalExponent_le h hne (hv.lt hd)
  have hzero : em.mantissa = 0 → totalExponent em.mantissa e = 1 + e := fun hz => by
    rw [hz]
    rfl
  have hbelow : e ≤ e' := by
    by_cases hne : em.mantissa = 0
    · have htotal' := hzero hne
      omega
    · have htotal' := htotal hne
      omega
  rcases hv.nearest hd with ⟨hfull, hnearest⟩ | ⟨hm, he', hlow, hhigh, hnearest⟩
  · refine .inl ⟨?_, hnearest⟩
    rcases hfull with hfull | hfull
    · have hlt := lt_totalExponent h (by omega) hfull
      have hne : em.mantissa ≠ 0 := fun hz => by
        have htotal' := hzero hz
        omega
      have htotal' := htotal hne
      omega
    · by_cases hne : em.mantissa = 0
      · have htotal' := hzero hne
        omega
      · have htotal' := htotal hne
        omega
  · refine .inr ⟨?_, hm, he', hnearest⟩
    have hlt := lt_totalExponent h (by omega) hlow
    have hne : em.mantissa ≠ 0 := fun hz => by
      have htotal' := hzero hz
      omega
    have hle := totalExponent_le h hne hhigh
    omega

end Total

theorem shiftToTargetExponent_eq {n : Nat} {k : Int} {accuracy : Accuracy} (shift : Nat)
    (h : (Format.binary64.targetExponent (totalExponent n k) - k).toNat = shift) :
    shiftToTargetExponent .binary64 n k accuracy =
      (ExtendedMantissa.ofMantissaAndAccuracy n accuracy >>> shift, k + shift) := by
  subst h
  rfl

theorem shiftToTargetExponent_double {m : Nat} {e : Int} (hd : IsDouble m e) :
    shiftToTargetExponent .binary64 m e .exact = (⟨m, false, false⟩, e) := by
  have hlog : m.log2 < 53 := (Nat.log2_lt hd.pos.ne').mpr hd.lt
  have hleast := hd.least
  have hshift : (Format.binary64.targetExponent (totalExponent m e) - e).toNat = 0 := by
    rw [targetExponent_eq, totalExponent]
    omega
  rw [shiftToTargetExponent_eq 0 hshift]
  simp [HShiftRight.hShiftRight, Nat.repeat, ExtendedMantissa.ofMantissaAndAccuracy]

/-- A mantissa that was rounded up to one bit more loses its last bit again. -/
theorem shiftToTargetExponent_carry {e : Int} (he : -1074 < e) :
    shiftToTargetExponent .binary64 (2 ^ 53) (e - 1) .exact = (⟨2 ^ 52, false, false⟩, e) := by
  have hshift : (Format.binary64.targetExponent (totalExponent (2 ^ 53) (e - 1)) - (e - 1)).toNat =
      1 := by
    rw [targetExponent_eq, totalExponent, Nat.log2_two_pow]
    omega
  rw [shiftToTargetExponent_eq 1 hshift]
  simp [HShiftRight.hShiftRight, Nat.repeat, ExtendedMantissa.ofMantissaAndAccuracy,
    ExtendedMantissa.shiftRightOne]

/-- What is rounded is shifted to its exponent, taken to the nearest integer there, and shifted
again if that has a bit too many. The exponent before has to leave room for all bits of the
mantissa. -/
theorem roundWithAccuracy_shift {v : ℚ} {n : Nat} {k : Int} {accuracy : Accuracy} (sign : Sign)
    (h : Represents (.ofMantissaAndAccuracy n accuracy) (v / 2 ^ k))
    (hk : k ≤ Format.binary64.targetExponent (totalExponent n k)) :
    ∃ r, NearestEven r (v / 2 ^ Format.binary64.targetExponent (totalExponent n k)) ∧
      ∀ em e, shiftToTargetExponent .binary64 r
          (Format.binary64.targetExponent (totalExponent n k)) .exact = (em, e) →
        roundWithAccuracy .binary64 sign n k accuracy =
          if hm : em.mantissa = 0 then .zero sign
          else .finite sign em.mantissa e (Nat.pos_of_ne_zero hm) := by
  obtain ⟨t, ht⟩ : ∃ t, t = Format.binary64.targetExponent (totalExponent n k) := ⟨_, rfl⟩
  rw [← ht] at hk ⊢
  have hfirst : shiftToTargetExponent .binary64 n k accuracy =
      (ExtendedMantissa.ofMantissaAndAccuracy n accuracy >>> (t - k).toNat, t) := by
    rw [shiftToTargetExponent_eq (t - k).toNat (by rw [← ht])]
    simp only [Prod.mk.injEq, true_and]
    omega
  have hrounded := (h.shiftRight (t - k).toNat).nearestEven
  rw [← div_zpow_add, show k + ((t - k).toNat : ℤ) = t by omega] at hrounded
  refine ⟨_, hrounded, fun em e hsecond => ?_⟩
  unfold roundWithAccuracy
  simp only [hfirst, hsecond]

/-- A quotient in the interval of a double is rounded to that double. -/
theorem roundWithAccuracy_eq {v : ℚ} {m n : Nat} {e k : Int} {accuracy : Accuracy} (sign : Sign)
    (hd : IsDouble m e) (hv : RoundsTo v m e)
    (h : Represents (.ofMantissaAndAccuracy n accuracy) (v / 2 ^ k))
    (hk : k ≤ Format.binary64.targetExponent (totalExponent n k)) :
    roundWithAccuracy .binary64 sign n k accuracy = .finite sign m e hd.pos := by
  have hmantissa := mantissa_ofMantissaAndAccuracy n accuracy
  have htarget := target_of_roundsTo hd hv h (by rwa [hmantissa])
  rw [hmantissa] at htarget
  obtain ⟨r, hr, hend⟩ := roundWithAccuracy_shift sign h hk
  rcases htarget with ⟨ht, hnearest⟩ | ⟨ht, rfl, he, hnearest⟩
  · rw [ht] at hr hend
    obtain rfl := hr.unique hnearest
    rw [hend _ _ (shiftToTargetExponent_double hd), dif_neg hd.pos.ne']
  · rw [ht] at hr hend
    obtain rfl := hr.unique hnearest
    rw [hend _ _ (shiftToTargetExponent_carry he), dif_neg hd.pos.ne']

theorem roundsTo_self {m : Nat} {e : Int} (hm : 0 < m) : RoundsTo (m * 2 ^ e) m e := by
  have hvalue : (m * 2 ^ e : ℚ) / 2 ^ (e - 2) = 4 * m := by
    rw [zpow_sub₀ two_ne_zero]
    field_simp
    norm_num
  have hhigh : ((Neighbourhood.ofDouble m e).high : ℚ) = 4 * m + 2 := by
    simp [Neighbourhood.ofDouble]
  have hlow := low_ofDouble (e := e) hm
  have hless : ((Neighbourhood.ofDouble m e).low : ℚ) < 4 * m := by
    rw [hlow]
    split <;> linarith
  unfold RoundsTo Neighbourhood.Covers
  rw [hvalue, hhigh]
  split <;> constructor <;> linarith

/-- A double is rounded to itself. -/
theorem roundWithAccuracy_double {m : Nat} {e : Int} (sign : Sign) (hd : IsDouble m e) :
    roundWithAccuracy .binary64 sign m e .exact = .finite sign m e hd.pos := by
  refine roundWithAccuracy_eq sign hd (roundsTo_self hd.pos) ?_ ?_
  · rw [mul_div_cancel_right₀ _ (by positivity)]
    exact .whole m
  · rw [targetExponent_eq, totalExponent]
    rcases hd.full with hfull | hfull
    · have hlog := (Nat.le_log2 hd.pos.ne').mpr hfull
      omega
    · omega

/-- The number `v` is rounded to `u`. -/
def Rounds (v : ℚ) (u : UnpackedFloat) : Prop :=
  ∃ n k accuracy, u = roundWithAccuracy .binary64 .positive n k accuracy ∧
    Represents (.ofMantissaAndAccuracy n accuracy) (v / 2 ^ k) ∧
    k ≤ Format.binary64.targetExponent (totalExponent n k)

theorem Rounds.eq_finite {v : ℚ} {u : UnpackedFloat} {m : Nat} {e : Int} (h : Rounds v u)
    (hd : IsDouble m e) (hv : RoundsTo v m e) : u = .finite .positive m e hd.pos := by
  obtain ⟨n, k, accuracy, rfl, hrepresents, hk⟩ := h
  exact roundWithAccuracy_eq .positive hd hv hrepresents hk

section Operations

variable {m₁ m₂ : Nat} {e₁ e₂ : Int}

theorem rounds_mul (h₁ : 0 < m₁) (h₂ : 0 < m₂) (hroom : 2 ^ 52 ≤ m₁ * m₂) :
    Rounds (m₁ * 2 ^ e₁ * (m₂ * 2 ^ e₂))
      (UnpackedFloat.mul .binary64 (.finite .positive m₁ e₁ h₁) (.finite .positive m₂ e₂ h₂)) := by
  refine ⟨m₁ * m₂, e₁ + e₂, .exact, rfl, ?_, ?_⟩
  · have hwhole : (m₁ * 2 ^ e₁ * (m₂ * 2 ^ e₂) : ℚ) / 2 ^ (e₁ + e₂) = (m₁ * m₂ : ℕ) := by
      rw [zpow_add₀ two_ne_zero]
      push_cast
      field_simp
    rw [hwhole]
    exact .whole (m₁ * m₂)
  · have hlog := (Nat.le_log2 (Nat.mul_pos h₁ h₂).ne').mpr hroom
    rw [targetExponent_eq, totalExponent]
    omega

/-- The quotient of two mantissas lies between two powers of two, one of which is its own. -/
theorem lt_div_of_log2 (h₁ : 0 < m₁) (h₂ : 0 < m₂) :
    (2 : ℚ) ^ ((m₁.log2 : ℤ) - m₂.log2 - 1) < m₁ / m₂ := by
  have hpos : (0 : ℚ) < m₂ := by exact_mod_cast h₂
  rw [lt_div_iff₀ hpos]
  calc (2 : ℚ) ^ ((m₁.log2 : ℤ) - m₂.log2 - 1) * m₂
      < 2 ^ ((m₁.log2 : ℤ) - m₂.log2 - 1) * 2 ^ ((m₂.log2 : ℤ) + 1) :=
        mul_lt_mul_of_pos_left (lt_two_zpow_log2 m₂) (by positivity)
    _ = 2 ^ (m₁.log2 : ℤ) := by
        rw [← zpow_add₀ two_ne_zero]
        congr 1
        ring
    _ ≤ m₁ := two_zpow_log2_le h₁.ne'

theorem rounds_div (h₁ : 0 < m₁) (h₂ : 0 < m₂) :
    Rounds (m₁ * 2 ^ e₁ / (m₂ * 2 ^ e₂))
      (UnpackedFloat.div .binary64 (.finite .positive m₁ e₁ h₁) (.finite .positive m₂ e₂ h₂)) := by
  obtain ⟨t, ht⟩ : ∃ t, t = min (e₁ - e₂) (Format.binary64.targetExponent
    (totalExponent m₁ e₁ - totalExponent m₂ e₂)) := ⟨_, rfl⟩
  obtain ⟨n, hn⟩ : ∃ n, n = m₁ <<< (e₁ - e₂ - t).toNat := ⟨_, rfl⟩
  have hquotient : (m₁ * 2 ^ e₁ / (m₂ * 2 ^ e₂) : ℚ) / 2 ^ t = n / m₂ := by
    rw [hn, Nat.shiftLeft_eq]
    push_cast
    rw [← zpow_natCast, show ((e₁ - e₂ - t).toNat : ℤ) = e₁ - e₂ - t by omega,
      zpow_sub₀ two_ne_zero, zpow_sub₀ two_ne_zero]
    field_simp
  have hrepresents := Represents.quotient n h₂
  rw [← hquotient] at hrepresents
  have hdiv : UnpackedFloat.div .binary64 (.finite .positive m₁ e₁ h₁)
      (.finite .positive m₂ e₂ h₂) =
      roundWithAccuracy .binary64 .positive (n / m₂) t (accuracyOfFraction (n % m₂) m₂) := by
    rw [hn, ht]
    rfl
  refine ⟨_, _, _, hdiv, hrepresents, ?_⟩
  -- The quotient has 53 bits, unless it belongs to the least doubles.
  rw [targetExponent_eq] at ht ⊢
  by_cases hleast : t ≤ -1074
  · omega
  · have hlow : (2 : ℚ) ^ ((m₁.log2 : ℤ) - m₂.log2 - 1 + (e₁ - e₂)) ≤
        m₁ * 2 ^ e₁ / (m₂ * 2 ^ e₂) := by
      rw [zpow_add₀ two_ne_zero, zpow_sub₀ two_ne_zero e₁ e₂, mul_div_mul_comm]
      exact mul_le_mul_of_nonneg_right (lt_div_of_log2 h₁ h₂).le (by positivity)
    unfold totalExponent at ht
    have hmantissa : (ExtendedMantissa.ofMantissaAndAccuracy (n / m₂)
        (accuracyOfFraction (n % m₂) m₂)).mantissa = n / m₂ := mantissa_ofMantissaAndAccuracy _ _
    have hlt := lt_totalExponent hrepresents (by omega) hlow
    rw [hmantissa] at hlt
    omega

end Operations

end Lox
