import Mathlib
import Lox.Decimal

namespace Lox

open Float.Model Float.Model.UnpackedFloat

/-- Mantissa and exponent of a positive double. Only the least ones have fewer than 53 bits. -/
structure IsDouble (m : Nat) (e : Int) : Prop where
  pos : 0 < m
  lt : m < 2 ^ 53
  least : -1074 ≤ e
  greatest : e ≤ 971
  full : 2 ^ 52 ≤ m ∨ e = -1074

theorem toNat_append_implicit (b : BitVec 52) : (1#1 ++ b).toNat = 2 ^ 52 + b.toNat := by
  rw [BitVec.toNat_append, ← Nat.shiftLeft_add_eq_or_of_lt b.isLt]
  rfl

section Bits

variable {sign : Sign} {m : Nat} {e : Int} {x y : BitVec 11} {z : BitVec 52}

/-- The bits of a double with an exponent of its own. -/
theorem unpack_full (hinfinite : x.toNat ≠ 2047) (hzero : x.toNat ≠ 0)
    (h : 0 < 2 ^ 52 + z.toNat) :
    UnpackedFloat.unpack .binary64 (packComponents .binary64 sign x z) =
      .finite sign (2 ^ 52 + z.toNat) (x.toNat - 1075) h := by
  have hinfinite' : x ≠ -1#11 := fun heq => hinfinite (by rw [heq]; rfl)
  have hzero' : x ≠ 0#11 := fun heq => hzero (by rw [heq]; rfl)
  unfold UnpackedFloat.unpack
  simp only [unpackMantissa_packComponents, unpackExponent_packComponents,
    unpackSign_packComponents, Sign.ofBitVec_toBitVec]
  rw [if_neg hinfinite', if_neg hzero']
  simp only [toNat_append_implicit]
  rfl

/-- The bits of one of the least doubles. -/
theorem unpack_least (h : 0 < z.toNat) :
    UnpackedFloat.unpack .binary64 (packComponents .binary64 sign 0#11 z) =
      .finite sign z.toNat (-1074) h := by
  have hne : z ≠ 0#52 := fun heq => by simp [heq] at h
  unfold UnpackedFloat.unpack
  simp only [unpackMantissa_packComponents, unpackExponent_packComponents,
    unpackSign_packComponents, Sign.ofBitVec_toBitVec]
  rw [if_neg (by decide), if_pos trivial, dif_neg hne]
  rfl

end Bits

theorem isDouble_of_unpack {b : BitVec 64} {sign : Sign} {m : Nat} {e : Int} {hm : 0 < m}
    (h : UnpackedFloat.unpack .binary64 b = .finite sign m e hm) : IsDouble m e := by
  obtain ⟨s, x, z, rfl⟩ : ∃ (s : Sign) (x : BitVec 11) (z : BitVec 52),
      b = packComponents .binary64 s x z :=
    ⟨_, _, _, (@packComponents_unpackSign_unpackExponent_unpackMantissa .binary64 b).symm⟩
  have hz := z.isLt
  have hx := x.isLt
  by_cases hinfinite : x.toNat = 2047
  · obtain rfl : x = -1#11 := BitVec.eq_of_toNat_eq hinfinite
    unfold UnpackedFloat.unpack at h
    simp only [unpackMantissa_packComponents, unpackExponent_packComponents] at h
    rw [if_pos trivial] at h
    split at h <;> simp at h
  · by_cases hzero : x.toNat = 0
    · obtain rfl : x = 0#11 := BitVec.eq_of_toNat_eq hzero
      by_cases hpos : 0 < z.toNat
      · rw [unpack_least hpos] at h
        obtain ⟨-, rfl, rfl⟩ := UnpackedFloat.finite.inj h
        exact ⟨hm, by omega, by omega, by omega, .inr rfl⟩
      · obtain rfl : z = 0#52 := BitVec.eq_of_toNat_eq (by simp; omega)
        have hpacked : packComponents .binary64 s 0#11 0#52 = packedZero .binary64 s := rfl
        rw [hpacked, unpack_packedZero] at h
        simp at h
    · rw [unpack_full hinfinite hzero (by omega)] at h
      obtain ⟨-, rfl, rfl⟩ := UnpackedFloat.finite.inj h
      exact ⟨hm, by omega, by omega, by omega, .inl (by omega)⟩

theorem biased_exponent (e : Int) : e + (Format.binary64.exponentBias : ℤ) +
    (Format.binary64.mantissaBitsWithoutImplicit : ℕ) = e + 1075 := by
  show e + 1023 + 52 = e + 1075
  ring

/-- A double is packed and unpacked without loss. -/
theorem unpack_pack {m : Nat} {e : Int} (hd : IsDouble m e) (sign : Sign) :
    (Float.Model.pack (.finite sign m e hd.pos)).unpack = .finite sign m e hd.pos := by
  obtain ⟨hpos, hlt, hleast, hgreatest, hfull⟩ := hd
  show UnpackedFloat.unpack .binary64 (UnpackedFloat.pack .binary64 (.finite sign m e hpos)) = _
  unfold UnpackedFloat.pack
  simp only [biased_exponent e]
  rw [if_neg (by show ¬2048 ≤ _; omega)]
  by_cases hbits : 2 ^ 52 ≤ m
  · have hlog : m.log2 + 1 = Format.binary64.mantissaBits := by
      have hlow := (Nat.le_log2 hpos.ne').mpr hbits
      have hhigh := (Nat.log2_lt hpos.ne').mpr hlt
      show m.log2 + 1 = 53
      omega
    rw [if_pos hlog]
    have hexponent : (BitVec.ofNat 11 (e + 1075).toNat).toNat = (e + 1075).toNat := by
      rw [BitVec.toNat_ofNat, Nat.mod_eq_of_lt (by omega)]
    have hmantissa : 2 ^ 52 + (BitVec.ofNat 52 m).toNat = m := by
      rw [BitVec.toNat_ofNat]
      omega
    rw [unpack_full (by omega) (by omega) (by omega)]
    simp only [hmantissa, hexponent, UnpackedFloat.finite.injEq, true_and]
    omega
  · have hlog : ¬m.log2 + 1 = Format.binary64.mantissaBits := by
      have hhigh := (Nat.log2_lt hpos.ne').mpr (show m < 2 ^ 52 by omega)
      show ¬m.log2 + 1 = 53
      omega
    obtain rfl := hfull.resolve_left hbits
    have hmantissa : (BitVec.ofNat 52 m).toNat = m := by
      rw [BitVec.toNat_ofNat]
      omega
    rw [if_neg hlog, unpack_least (by omega)]
    simp only [hmantissa]

end Lox
