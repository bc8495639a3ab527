import Lox.Proofs.Decimal.Reading
import Lox.Proofs.Token.Numeral

namespace Lox

open Float.Model.UnpackedFloat

/-- Digits, and possibly more digits behind a point. -/
structure IsNumeral (whole places : List Char) : Prop where
  nonempty : whole ≠ []
  digits : ∀ d ∈ whole ++ places, d.isDigit

/-- The number that a numeral writes. -/
def writtenValue (whole places : List Char) : ℚ :=
  digitsValue (whole ++ places) * 10 ^ (-(places.length : ℤ))

section DigitsValue

theorem digitsValue_append (cs ds : List Char) :
    digitsValue (cs ++ ds) = 10 ^ ds.length * digitsValue cs + digitsValue ds := by
  have hsplit := Nat.ofDigitChars_append (b := 10) (l := cs) (m := ds) 0
  rwa [Nat.ofDigitChars_eq_ofDigitChars_zero (l := ds)] at hsplit

theorem digitsValue_natural (n : Nat) : digitsValue (Decimal.natural n) = n :=
  Nat.ofDigitChars_ten_toDigits

theorem digitsValue_zeros (n : Nat) : digitsValue (Decimal.zeros n) = 0 := by
  induction n with
  | zero => rfl
  | succ n ih => simpa [Decimal.zeros, List.replicate_succ, digitsValue] using ih

end DigitsValue

namespace Decimal

/-- The number that a decimal stands for. -/
def value (d : Decimal) : ℚ := d.digits * 10 ^ d.exponent

theorem natural_ne_nil (n : Nat) : natural n ≠ [] := Nat.toDigits_ne_nil

theorem isDigit_of_mem_natural {n : Nat} {c : Char} (h : c ∈ natural n) : c.isDigit :=
  Nat.isDigit_of_mem_toDigits (by decide) (by decide) h

theorem isDigit_of_mem_zeros {n : Nat} {c : Char} (h : c ∈ zeros n) : c.isDigit := by
  rw [List.eq_of_mem_replicate h]
  rfl

theorem isNumeral_natural (n : Nat) : IsNumeral (natural n) [] :=
  ⟨natural_ne_nil n, fun _ h => isDigit_of_mem_natural (by simpa using h)⟩

theorem writtenValue_natural (n : Nat) : writtenValue (natural n) [] = n := by
  simp [writtenValue, digitsValue_natural]

/-- A point among digits, with zeros before them if there are not enough. -/
theorem pointed_spec (n : Nat) {k : Nat} (hk : 0 < k) : ∃ whole places,
    pointed (natural n) k = numeralText whole places ∧ IsNumeral whole places ∧
      places.length = k ∧ digitsValue (whole ++ places) = n := by
  obtain ⟨padded, hpadded⟩ : ∃ padded, padded = zeros (k + 1 - (natural n).length) ++ natural n :=
    ⟨_, rfl⟩
  have hlength : k < padded.length := by
    rw [hpadded, List.length_append, zeros, List.length_replicate]
    omega
  have hdigits : ∀ d ∈ padded, d.isDigit := by
    intro d hd
    rw [hpadded] at hd
    exact (List.mem_append.mp hd).elim isDigit_of_mem_zeros isDigit_of_mem_natural
  have hvalue : digitsValue padded = n := by
    rw [hpadded, digitsValue_append, digitsValue_zeros, digitsValue_natural, mul_zero, zero_add]
  have hplaces : (padded.drop (padded.length - k)).length = k := by
    rw [List.length_drop]
    omega
  refine ⟨padded.take (padded.length - k), padded.drop (padded.length - k), ?_, ⟨?_, ?_⟩, hplaces,
    ?_⟩
  · rw [numeralText, if_neg (List.ne_nil_of_length_pos (by omega)), hpadded]
    rfl
  · refine List.ne_nil_of_length_pos ?_
    rw [List.length_take]
    omega
  · rwa [List.take_append_drop]
  · rw [List.take_append_drop, hvalue]

/-- In positional notation a decimal is a numeral, with places only if its exponent is negative. -/
theorem positional_spec (d : Decimal) : ∃ whole places,
    d.positional = numeralText whole places ∧ IsNumeral whole places ∧
      writtenValue whole places = d.value ∧ (0 ≤ d.exponent → places = []) := by
  unfold positional
  by_cases hexponent : 0 ≤ d.exponent
  · rw [if_pos hexponent]
    refine ⟨natural d.digits ++ zeros d.exponent.toNat, [], by simp [numeralText], ⟨?_, ?_⟩, ?_,
      fun _ => rfl⟩
    · simp [natural_ne_nil]
    · intro c hc
      rw [List.append_nil] at hc
      exact (List.mem_append.mp hc).elim isDigit_of_mem_natural isDigit_of_mem_zeros
    · have hpow : (10 : ℚ) ^ d.exponent = 10 ^ d.exponent.toNat := by
        rw [← zpow_natCast, Int.toNat_of_nonneg hexponent]
      rw [writtenValue, value, List.append_nil, digitsValue_append, digitsValue_natural,
        digitsValue_zeros, zeros, List.length_replicate, hpow]
      push_cast
      simp [mul_comm]
  · obtain ⟨whole, places, htext, hnumeral, hlength, hdigits⟩ :=
      pointed_spec d.digits (show 0 < (-d.exponent).toNat by omega)
    rw [if_neg hexponent]
    refine ⟨whole, places, htext, hnumeral, ?_, fun h => absurd h hexponent⟩
    rw [writtenValue, value, hdigits, hlength]
    congr 2
    omega

end Decimal

/-- A numeral is read as the double in whose interval its number lies. -/
theorem numeralValue_eq_double {whole places : List Char} {m : Nat} {e : Int} (hd : IsDouble m e)
    (hv : RoundsTo (writtenValue whole places) m e) :
    numeralValue whole places = double (.finite .positive m e hd.pos) :=
  ofScientific_eq_double hd (by simpa [writtenValue] using hv)

end Lox
