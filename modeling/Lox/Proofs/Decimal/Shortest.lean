import Lox.Proofs.Decimal.Rounding

namespace Lox

theorem Tie.round_eq (tie : Tie) (c excess unit : Nat) :
    tie.round c excess unit = c ∨ tie.round c excess unit = c + 1 := by
  unfold Tie.round
  split
  · exact .inl rfl
  · split
    · exact .inr rfl
    · cases tie with
      | up => exact .inr rfl
      | even => exact ite_eq_or_eq (c % 2 = 0) c (c + 1)

namespace Neighbourhood

variable {n : Neighbourhood} {tie : Tie} {a b c : Nat}

theorem holds_iff (hb : 0 < b) (p : Nat) : n.holds b p = true ↔ n.Covers (p / b) := by
  have hb' : (0 : ℚ) < b := by exact_mod_cast hb
  unfold holds Covers
  rw [le_div_iff₀ hb', div_le_iff₀ hb', lt_div_iff₀ hb', div_lt_iff₀ hb']
  split <;> simp <;> norm_cast

theorem holds_of_nearest? (h : n.nearest? tie a b = some c) : n.holds b (c * a) = true := by
  unfold nearest? at h
  simp only at h
  split at h <;> cases h
  next hlow hhigh =>
    rcases tie.round_eq (n.value * b / a) (n.value * b - n.value * b / a * a) a with heq | heq
    · rw [heq]
      exact hlow
    · rw [heq]
      exact hhigh
  next hlow hhigh => exact hlow
  next hlow hhigh => exact hhigh

/-- A grid with steps of a quarter at most has a point above the value that is in the interval. -/
theorem nearest?_isSome {m : Nat} {e : Int} (hm : 0 < m) (ha : 0 < a) (hab : a ≤ b) :
    ((ofDouble m e).nearest? tie a b).isSome := by
  obtain ⟨n, hn⟩ : ∃ n, n = ofDouble m e := ⟨_, rfl⟩
  have hlow : n.low < n.value := by
    rw [hn]
    simp only [ofDouble]
    split <;> omega
  have hhigh : n.value + 1 < n.high := by
    rw [hn]
    simp only [ofDouble]
    omega
  have hbelow : n.value * b < (n.value * b / a + 1) * a := by
    rw [Nat.mul_comm (_ + 1)]
    exact Nat.lt_mul_div_succ _ ha
  have habove : n.value * b / a * a ≤ n.value * b := Nat.div_mul_le_self _ _
  have hnext : (n.value * b / a + 1) * a ≤ (n.value + 1) * b := by
    rw [Nat.add_one_mul, Nat.add_one_mul]
    exact Nat.add_le_add habove hab
  have hfirst : n.low * b < (n.value * b / a + 1) * a :=
    (Nat.mul_le_mul_right b hlow.le).trans_lt hbelow
  have hlast : (n.value * b / a + 1) * a < n.high * b :=
    hnext.trans_lt (Nat.mul_lt_mul_of_pos_right hhigh (ha.trans_le hab))
  have hholds : n.holds b ((n.value * b / a + 1) * a) = true := by
    unfold holds
    split
    · simp [hfirst.le, hlast.le]
    · simp [hfirst, hlast]
  rw [← hn]
  unfold nearest?
  simp only [hholds]
  split <;> simp_all

end Neighbourhood

namespace Decimal

variable {tie : Tie} {m : Nat} {e k : Int} {d : Decimal}

theorem zpow_eq_div {x : ℚ} (hx : x ≠ 0) (k : Int) : x ^ k = x ^ k.toNat / x ^ (-k).toNat := by
  rw [← zpow_natCast, ← zpow_natCast, ← zpow_sub₀ hx]
  congr 1
  omega

/-- How many quarters of a place of the double are a step of the grid. -/
theorem step_div (e k : Int) :
    ((Nat.pow 10 k.toNat * Nat.pow 2 (2 - e).toNat : ℕ) : ℚ) /
      (Nat.pow 2 (e - 2).toNat * Nat.pow 10 (-k).toNat : ℕ) = 10 ^ k / 2 ^ (e - 2) := by
  have hneg : (2 - e).toNat = (-(e - 2)).toNat := by
    congr 1
    omega
  rw [zpow_eq_div (by norm_num) k, zpow_eq_div two_ne_zero (e - 2), hneg]
  simp only [Nat.pow_eq]
  push_cast
  field_simp

theorem roundsTo_of_onGrid? (h : onGrid? tie m e k = some d) :
    d.exponent = k ∧ RoundsTo (d.digits * 10 ^ k) m e := by
  obtain ⟨c, hc, rfl⟩ := Option.map_eq_some_iff.mp h
  refine ⟨rfl, ?_⟩
  have hpos : 0 < Nat.pow 2 (e - 2).toNat * Nat.pow 10 (-k).toNat := by
    simp only [Nat.pow_eq]
    positivity
  have hcovers := (Neighbourhood.holds_iff hpos _).mp (Neighbourhood.holds_of_nearest? hc)
  rw [Nat.cast_mul, mul_div_assoc, step_div, ← mul_div_assoc] at hcovers
  exact hcovers

theorem onGrid?_isSome (hm : 0 < m) (hk : (10 : ℚ) ^ k ≤ 2 ^ (e - 2)) :
    (onGrid? tie m e k).isSome := by
  obtain ⟨a, ha⟩ : ∃ a, a = Nat.pow 10 k.toNat * Nat.pow 2 (2 - e).toNat := ⟨_, rfl⟩
  obtain ⟨b, hb⟩ : ∃ b, b = Nat.pow 2 (e - 2).toNat * Nat.pow 10 (-k).toNat := ⟨_, rfl⟩
  have hpos : 0 < a ∧ 0 < b := by
    rw [ha, hb]
    simp only [Nat.pow_eq]
    constructor <;> positivity
  have hab : a ≤ b := by
    have hstep := step_div e k
    rw [← ha, ← hb] at hstep
    have hle : (a : ℚ) / b ≤ 1 := by
      rw [hstep]
      exact (div_le_one (by positivity)).mpr hk
    exact_mod_cast (div_le_one (by exact_mod_cast hpos.2)).mp hle
  unfold onGrid?
  rw [Option.isSome_map, ← ha, ← hb]
  exact Neighbourhood.nearest?_isSome hm hpos.1 hab

/-- `10 ^ 59` lies below `2 ^ 196` and `10 ^ 28` above `2 ^ 93`, both just so. -/
theorem ten_zpow_le {j : Int} (hup : 0 ≤ k → 196 * k ≤ 59 * j) (hdown : k < 0 → 93 * k ≤ 28 * j) :
    (10 : ℚ) ^ k ≤ 2 ^ j := by
  rcases le_or_gt 0 k with hk | hk
  · obtain ⟨i, rfl⟩ := Int.eq_ofNat_of_zero_le hk
    refine (pow_le_pow_iff_left₀ (by positivity) (by positivity) (by norm_num : 59 ≠ 0)).mp ?_
    calc ((10 : ℚ) ^ (i : ℤ)) ^ 59 = (10 ^ 59) ^ i := by rw [zpow_natCast, pow_right_comm]
      _ ≤ (2 ^ 196) ^ i := pow_le_pow_left₀ (by norm_num) (by norm_num) i
      _ = 2 ^ (196 * (i : ℤ)) := by rw [← pow_mul, ← zpow_natCast]; norm_cast
      _ ≤ 2 ^ (59 * j) := zpow_le_zpow_right₀ (by norm_num) (hup hk)
      _ = (2 ^ j) ^ 59 := by rw [mul_comm, zpow_mul]; norm_cast
  · obtain ⟨i, rfl⟩ : ∃ i : ℕ, k = -i := ⟨(-k).toNat, by omega⟩
    refine (pow_le_pow_iff_left₀ (by positivity) (by positivity) (by norm_num : 28 ≠ 0)).mp ?_
    calc ((10 : ℚ) ^ (-(i : ℤ))) ^ 28 = ((10 ^ 28) ^ i)⁻¹ := by
          rw [zpow_neg, zpow_natCast, inv_pow, pow_right_comm]
      _ ≤ ((2 ^ 93) ^ i)⁻¹ := by
          exact inv_anti₀ (by positivity) (pow_le_pow_left₀ (by norm_num) (by norm_num) i)
      _ = 2 ^ (93 * -(i : ℤ)) := by
          rw [← pow_mul, mul_neg, zpow_neg, ← zpow_natCast]
          norm_cast
      _ ≤ 2 ^ (28 * j) := zpow_le_zpow_right₀ (by norm_num) (hdown hk)
      _ = (2 ^ j) ^ 28 := by rw [mul_comm, zpow_mul]; norm_cast

/-- The shortest decimal is on one of the twenty grids: the finest of them is finer than a quarter
of a place. -/
theorem shortest_onGrid (tie : Tie) (hd : IsDouble m e) :
    ∃ j < 20, onGrid? tie m e (ceiling m e - (j : ℕ)) = some (shortest tie m e) := by
  have hfinest : (onGrid? tie m e (ceiling m e - (19 : ℕ))).isSome := by
    have hlog : m.log2 < 53 := (Nat.log2_lt hd.pos.ne').mpr hd.lt
    have hleast := hd.least
    have hgreatest := hd.greatest
    refine onGrid?_isSome hd.pos (ten_zpow_le ?_ ?_) <;> unfold ceiling <;> omega
  have hsome : ((List.range 20).findSome? fun (j : Nat) =>
      onGrid? tie m e (ceiling m e - j)).isSome :=
    List.findSome?_isSome_iff.mpr ⟨19, by simp, hfinest⟩
  obtain ⟨d, hfound⟩ := Option.isSome_iff_exists.mp hsome
  obtain ⟨j, hj, hgrid⟩ := List.exists_of_findSome?_eq_some hfound
  have hshortest : shortest tie m e = d := by
    unfold shortest
    rw [if_neg hd.pos.ne', hfound, Option.getD_some]
  exact ⟨j, List.mem_range.mp hj, by rw [hshortest, hgrid]⟩

/-- The shortest decimal of a double lies in the interval of the double. -/
theorem shortest_roundsTo (tie : Tie) (hd : IsDouble m e) :
    RoundsTo ((shortest tie m e).digits * 10 ^ (shortest tie m e).exponent) m e := by
  obtain ⟨j, -, hgrid⟩ := shortest_onGrid tie hd
  obtain ⟨hexponent, hrounds⟩ := roundsTo_of_onGrid? hgrid
  rwa [← hexponent] at hrounds

theorem le_exponent_shortest (tie : Tie) (hd : IsDouble m e) :
    ceiling m e - 19 ≤ (shortest tie m e).exponent := by
  obtain ⟨j, hj, hgrid⟩ := shortest_onGrid tie hd
  obtain ⟨hexponent, -⟩ := roundsTo_of_onGrid? hgrid
  omega

end Decimal

end Lox
