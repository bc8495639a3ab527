import Lox.Proofs.Decimal.Digits
import Lox.Proofs.Decimal.Shortest
import Lox.Proofs.Token.Word
import Lox.Value

namespace Lox

open Float.Model Float.Model.UnpackedFloat

namespace Numeral

/-- The double that digits with an exponent of ten are read as. -/
def scientific (digits : List Char) (exponent : Int) : Float :=
  .ofScientific (digitsValue digits) (exponent < 0) exponent.natAbs

/-- The integer that digits write, maybe behind a sign. -/
def readInteger? (text : List Char) : Option Int :=
  let digits := if text.head? = some '-' then text.tail else text
  if digits ≠ [] ∧ digits.all Char.isDigit then
    some (if text.head? = some '-' then -(digitsValue digits) else digitsValue digits)
  else
    none

/-- A numeral, maybe with an exponent behind an `E`. -/
def readMagnitude? (text : List Char) : Option Float :=
  if text = ['i', 'n', 'f'] then some (double (.infinity .positive))
  else
    match numeral text with
    | ([], _, _) => none
    | (whole, places, []) => some (scientific (whole ++ places) (-places.length))
    | (whole, places, 'E' :: rest) =>
      (readInteger? rest).map fun k => scientific (whole ++ places) (k - places.length)
    | _ => none

/-- The number that a text writes. -/
def read? (text : List Char) : Option Float :=
  if text.head? = some '-' then (readMagnitude? text.tail).map Float.neg else readMagnitude? text

theorem scientific_eq_double {digits : List Char} {k e : Int} {m : Nat} (hd : IsDouble m e)
    (hv : RoundsTo (digitsValue digits * 10 ^ k) m e) :
    scientific digits k = double (.finite .positive m e hd.pos) := by
  have hexponent : (if decide (k < 0) = true then -(k.natAbs : ℤ) else k.natAbs) = k := by
    split
    next h =>
      have hneg := of_decide_eq_true h
      omega
    next h =>
      have hnonneg := of_decide_eq_false (Bool.not_eq_true _ ▸ h)
      omega
  exact ofScientific_eq_double hd (by rwa [hexponent])

theorem readInteger?_integer (k : Int) : readInteger? (Decimal.integer k) = some k := by
  have hnatural : ∀ n, Decimal.natural n ≠ [] ∧ (Decimal.natural n).all Char.isDigit :=
    fun n => ⟨Decimal.natural_ne_nil n,
      List.all_eq_true.mpr fun _ => Decimal.isDigit_of_mem_natural⟩
  cases k with
  | ofNat n =>
    have hhead : (Decimal.natural n).head? ≠ some '-' := fun h => by
      cases Decimal.isDigit_of_mem_natural (List.mem_of_head? h)
    show readInteger? (Decimal.natural n) = _
    simp only [readInteger?, if_neg hhead, if_pos (hnatural n), digitsValue_natural]
    rfl
  | negSucc n =>
    show readInteger? ('-' :: Decimal.natural (n + 1)) = _
    simp only [readInteger?, List.head?_cons, if_true, List.tail_cons, if_pos (hnatural (n + 1)),
      digitsValue_natural]
    rfl

section Magnitude

variable {whole places : List Char}

theorem numeral_append (h : IsNumeral whole places) {rest : List Char} {x : Float}
    (hrest : endsWord rest (.number x)) :
    numeral (numeralText whole places ++ rest) = (whole, places, rest) := by
  have hwhole : ∀ d ∈ whole, d.isDigit := fun d hd => h.digits d (by simp [hd])
  unfold numeralText
  split
  next hplaces =>
    rw [List.append_nil, hplaces]
    exact numeral_whole hwhole hrest
  next hplaces =>
    exact numeral_places hwhole (fun d hd => h.digits d (by simp [hd])) hplaces hrest

/-- A numeral starts with a digit, so it is no name and has no sign. -/
theorem head?_numeralText (h : IsNumeral whole places) (rest : List Char) :
    ∃ d, (numeralText whole places ++ rest).head? = some d ∧ d.isDigit := by
  obtain ⟨d, ds, rfl⟩ := List.exists_cons_of_ne_nil h.nonempty
  exact ⟨d, rfl, h.digits d (by simp)⟩

theorem readMagnitude?_numeral (h : IsNumeral whole places) :
    readMagnitude? (numeralText whole places) =
      some (scientific (whole ++ places) (-places.length)) := by
  obtain ⟨d, hhead, hdigit⟩ := head?_numeralText h []
  have hnumeral := numeral_append h (endsWord_nil (.number 0))
  rw [List.append_nil] at hhead hnumeral
  have hname : numeralText whole places ≠ ['i', 'n', 'f'] := fun heq => by
    rw [heq] at hhead
    cases hhead
    cases hdigit
  obtain ⟨c, cs, rfl⟩ := List.exists_cons_of_ne_nil h.nonempty
  rw [readMagnitude?, if_neg hname, hnumeral]

theorem readMagnitude?_exponent (h : IsNumeral whole places) (k : Int) :
    readMagnitude? (numeralText whole places ++ 'E' :: Decimal.integer k) =
      some (scientific (whole ++ places) (k - places.length)) := by
  obtain ⟨d, hhead, hdigit⟩ := head?_numeralText h ('E' :: Decimal.integer k)
  have hends : endsWord ('E' :: Decimal.integer k) (.number 0) := rfl
  have hname : numeralText whole places ++ 'E' :: Decimal.integer k ≠ ['i', 'n', 'f'] :=
    fun heq => by
      rw [heq] at hhead
      cases hhead
      cases hdigit
  obtain ⟨c, cs, rfl⟩ := List.exists_cons_of_ne_nil h.nonempty
  rw [readMagnitude?, if_neg hname, numeral_append h hends]
  simp only [readInteger?_integer, Option.map_some]

end Magnitude

/-- A numeral with one digit before the point and at least one behind it. -/
theorem exponential_spec (d : Decimal) : ∃ c places,
    exponential d = numeralText [c] places ++ 'E' :: Decimal.integer d.leading ∧
      IsNumeral [c] places ∧ places ≠ [] ∧
      (digitsValue (c :: places) * 10 ^ (d.leading - places.length) : ℚ) = d.value := by
  obtain ⟨c, cs, hdigits⟩ := List.exists_cons_of_ne_nil (Decimal.natural_ne_nil d.digits)
  have hall : ∀ a ∈ c :: cs, a.isDigit := fun a ha =>
    Decimal.isDigit_of_mem_natural (hdigits ▸ ha)
  have hvalue : digitsValue (c :: cs) = d.digits := by rw [← hdigits, digitsValue_natural]
  have hleading : d.leading = cs.length + d.exponent := by
    rw [Decimal.leading, hdigits, List.length_cons]
    omega
  cases cs with
  | nil =>
    refine ⟨c, ['0'], ?_, ⟨by simp, ?_⟩, by simp, ?_⟩
    · simp [exponential, Decimal.mantissa, hdigits, numeralText]
    · intro a ha
      rcases List.mem_cons.mp ha with rfl | ha
      · exact hall a (by simp)
      · rw [List.mem_singleton.mp ha]
        rfl
    · have hten : digitsValue [c, '0'] = 10 * d.digits := by
        rw [← hvalue]
        rfl
      rw [hten, hleading, Decimal.value]
      push_cast
      rw [zpow_sub₀ (by norm_num : (10 : ℚ) ≠ 0)]
      simp
      ring
  | cons b bs =>
    refine ⟨c, b :: bs, ?_, ⟨by simp, hall⟩, by simp, ?_⟩
    · simp [exponential, Decimal.mantissa, hdigits, numeralText]
    · rw [hvalue, hleading, Decimal.value]
      congr 2
      omega

/-- Below the threshold a numeral, and from the threshold on a numeral with an exponent; both have
digits that round to the double. -/
theorem printedMagnitude_spec {m : Nat} {e : Int} (hd : IsDouble m e) :
    ((m * 2 ^ e : ℚ) < 10 ^ 21 ∧ ∃ whole places, IsNumeral whole places ∧
      printedMagnitude m e = numeralText whole places ∧
      RoundsTo (writtenValue whole places) m e) ∨
    ((10 : ℚ) ^ 21 ≤ m * 2 ^ e ∧ ∃ c places k, IsNumeral [c] places ∧ places ≠ [] ∧
      printedMagnitude m e = numeralText [c] places ++ 'E' :: Decimal.integer k ∧
      RoundsTo (digitsValue (c :: places) * 10 ^ (k - places.length)) m e) := by
  have hshortest := Decimal.shortest_roundsTo .up hd
  unfold printedMagnitude
  cases hwhole : Quantity.whole? m e with
  | none =>
    obtain ⟨whole, places, htext, hnumeral, hvalue, -⟩ :=
      (Decimal.shortest .up m e).positional_spec
    refine .inl ⟨?_, whole, places, hnumeral, htext, ?_⟩
    · have hneg : e < 0 := by
        by_contra hnonneg
        unfold Quantity.whole? at hwhole
        rw [if_pos (by omega)] at hwhole
        cases hwhole
      have hm : (m : ℚ) < 2 ^ 53 := by exact_mod_cast hd.lt
      have hpow : (2 : ℚ) ^ e ≤ 1 := zpow_le_one_of_nonpos₀ (by norm_num) hneg.le
      calc (m * 2 ^ e : ℚ) ≤ m * 1 := mul_le_mul_of_nonneg_left hpow (by positivity)
        _ < 2 ^ 53 := by rwa [mul_one]
        _ < 10 ^ 21 := by norm_num
    · rwa [hvalue]
  | some n =>
    have hn := Quantity.whole?_eq_some_iff.mp hwhole
    simp only
    by_cases hlarge : exponentThreshold ≤ n
    · obtain ⟨c, places, htext, hnumeral, hplaces, hvalue⟩ :=
        exponential_spec (Decimal.shortest .up m e)
      rw [if_pos hlarge]
      refine .inr ⟨?_, c, places, _, hnumeral, hplaces, htext, ?_⟩
      · have hlarge' : 10 ^ 21 ≤ n := hlarge
        rw [hn]
        exact_mod_cast hlarge'
      · rwa [hvalue]
    · rw [if_neg hlarge]
      refine .inl ⟨?_, Decimal.natural n, [], Decimal.isNumeral_natural n, ?_, ?_⟩
      · have hsmall : n < 10 ^ 21 := Nat.not_le.mp hlarge
        rw [hn]
        exact_mod_cast hsmall
      · simp [numeralText]
      · rw [Decimal.writtenValue_natural, ← hn]
        exact roundsTo_self hd.pos

theorem readMagnitude?_printed {m : Nat} {e : Int} (hd : IsDouble m e) :
    readMagnitude? (printedMagnitude m e) = some (double (.finite .positive m e hd.pos)) := by
  rcases printedMagnitude_spec hd with ⟨-, whole, places, hnumeral, htext, hrounds⟩ |
    ⟨-, c, places, k, hnumeral, -, htext, hrounds⟩
  · rw [htext, readMagnitude?_numeral hnumeral, scientific_eq_double hd hrounds]
  · rw [htext, readMagnitude?_exponent hnumeral]
    exact congrArg some (scientific_eq_double hd hrounds)

theorem head?_printedMagnitude {m : Nat} {e : Int} (hd : IsDouble m e) :
    (printedMagnitude m e).head? ≠ some '-' := by
  intro hsign
  rcases printedMagnitude_spec hd with ⟨-, whole, places, hnumeral, htext, -⟩ |
    ⟨-, c, places, k, hnumeral, -, htext, -⟩
  · obtain ⟨d, hhead, hdigit⟩ := head?_numeralText hnumeral []
    rw [List.append_nil, ← htext, hsign] at hhead
    cases hhead
    cases hdigit
  · obtain ⟨d, hhead, hdigit⟩ := head?_numeralText hnumeral ('E' :: Decimal.integer k)
    rw [← htext, hsign] at hhead
    cases hhead
    cases hdigit

theorem read?_signed (negative : Bool) {text : List Char} (h : text.head? ≠ some '-') :
    read? (signed negative text) =
      (readMagnitude? text).map (if negative then Float.neg else id) := by
  cases negative with
  | false =>
    show read? text = _
    rw [read?, if_neg h]
    simp
  | true => rfl

section Printed

variable {x : Float} {sign : Sign} {m : Nat} {e : Int} {hm : 0 < m}

theorem printed_of_finite (hx : x.toModel.unpack = .finite sign m e hm) :
    (printed x).toList = signed (Quantity.isNegative sign) (printedMagnitude m e) := by
  unfold printed Quantity.ofFloat
  rw [hx, String.toList_ofList]
  rfl

theorem read?_of_finite (hx : x.toModel.unpack = .finite sign m e hm) :
    read? (printed x).toList = some x := by
  have hd : IsDouble m e := isDouble_of_unpack hx
  rw [printed_of_finite hx, read?_signed _ (head?_printedMagnitude hd), readMagnitude?_printed hd,
    ← double_unpack x, hx]
  cases sign with
  | positive => rfl
  | negative =>
    have hneg : Float.neg (double (.finite .positive m e hd.pos)) =
        double (Float.Model.pack (.finite .positive m e hd.pos)).unpack.neg := rfl
    rw [unpack_pack hd] at hneg
    exact congrArg some hneg

/-- Every number but the undefined one is read from its text. -/
theorem read?_printed (hx : ¬x.isNaN) : read? (printed x).toList = some x := by
  replace hx : ¬x.toModel.unpack.isNaN := hx
  cases hunpack : x.toModel.unpack with
  | notANumber => simp [hunpack, UnpackedFloat.isNaN] at hx
  | finite sign m e hm => exact read?_of_finite hunpack
  | infinity sign =>
    have hinfinite : x = double (.infinity sign) := by rw [← hunpack, double_unpack]
    rw [hinfinite]
    cases sign <;> decide +kernel
  | zero sign =>
    have hzero : x = double (.zero sign) := by rw [← hunpack, double_unpack]
    rw [hzero]
    cases sign <;> decide +kernel

theorem exponent_mem_signed (negative : Bool) (text : List Char) :
    'E' ∈ signed negative text ↔ 'E' ∈ text := by
  cases negative <;> simp [signed]

theorem exponent_mem_printedMagnitude (hd : IsDouble m e) :
    'E' ∈ printedMagnitude m e ↔ (10 : ℚ) ^ 21 ≤ m * 2 ^ e := by
  rcases printedMagnitude_spec hd with ⟨hsmall, whole, places, hnumeral, htext, -⟩ |
    ⟨hlarge, c, places, k, -, -, htext, -⟩
  · refine iff_of_false (fun hmem => ?_) hsmall.not_ge
    rw [htext] at hmem
    rcases mem_numeralText (fun d hd => hnumeral.digits d (by simp [hd]))
      (fun d hd => hnumeral.digits d (by simp [hd])) hmem with hdigit | hpoint
    · cases hdigit
    · cases hpoint
  · refine iff_of_true ?_ hlarge
    rw [htext]
    simp

/-- A finite number has an `E` in its text from the threshold on, and digits behind the point. -/
theorem printed_style {negative : Bool} (hx : Quantity.ofFloat x = .finite negative m e) :
    ('E' ∈ (printed x).toList ↔ (10 : ℚ) ^ 21 ≤ m * 2 ^ e) ∧
    ((10 : ℚ) ^ 21 ≤ m * 2 ^ e → ∃ c places k, IsNumeral [c] places ∧ places ≠ [] ∧
      (printed x).toList =
        signed negative (numeralText [c] places ++ 'E' :: Decimal.integer k)) := by
  have htext : (printed x).toList = signed negative (printedMagnitude m e) := by
    unfold printed
    rw [hx, String.toList_ofList]
    rfl
  rw [htext, exponent_mem_signed]
  unfold Quantity.ofFloat at hx
  cases hunpack : x.toModel.unpack with
  | notANumber => simp [hunpack] at hx
  | infinity sign => simp [hunpack] at hx
  | zero sign =>
    simp only [hunpack, Quantity.finite.injEq] at hx
    obtain ⟨-, rfl, rfl⟩ := hx
    norm_num
    decide
  | finite sign m' e' hm' =>
    simp only [hunpack, Quantity.finite.injEq] at hx
    obtain ⟨-, rfl, rfl⟩ := hx
    have hd : IsDouble m' e' := isDouble_of_unpack hunpack
    refine ⟨exponent_mem_printedMagnitude hd, fun hlarge => ?_⟩
    rcases printedMagnitude_spec hd with ⟨hsmall, -⟩ |
      ⟨-, c, places, k, hnumeral, hplaces, hmagnitude, -⟩
    · exact absurd hlarge hsmall.not_ge
    · exact ⟨c, places, k, hnumeral, hplaces, by rw [hmagnitude]⟩

end Printed

end Numeral

/-- A number is what is read from the text it prints, so no two numbers print alike. The text of a
finite number has an exponent exactly from `1e21` on, and then digits behind the point. -/
theorem printed_number {x : Float} (hx : ¬x.isNaN) :
    Numeral.read? (Value.number x).text.toList = some x ∧
    (∀ y : Float, ¬y.isNaN → (Value.number y).text = (Value.number x).text → y = x) ∧
    ∀ negative m e, Quantity.ofFloat x = .finite negative m e →
      ('E' ∈ (Value.number x).text.toList ↔ (10 : ℚ) ^ 21 ≤ m * 2 ^ e) ∧
      ((10 : ℚ) ^ 21 ≤ m * 2 ^ e → ∃ c places k, IsNumeral [c] places ∧ places ≠ [] ∧
        (Value.number x).text.toList =
          Numeral.signed negative (numeralText [c] places ++ 'E' :: Decimal.integer k)) := by
  refine ⟨Numeral.read?_printed hx, fun y hy htext => ?_, fun _ _ _ => Numeral.printed_style⟩
  have hread := Numeral.read?_printed hy
  rw [show Numeral.printed y = Numeral.printed x from htext, Numeral.read?_printed hx] at hread
  exact (Option.some.inj hread).symm

/-- The least large number, and the number before it. -/
theorem printed_number_threshold :
    let x := numeralValue "1000000000000000000000".toList []
    let y := numeralValue "999999999999999868928".toList []
    (¬x.isNaN ∧ Numeral.read? (Value.number x).text.toList = some x ∧
      (Value.number x).text = "1.0E21") ∧
    (¬y.isNaN ∧ Numeral.read? (Value.number y).text.toList = some y ∧
      (Value.number y).text = "999999999999999868928") := by
  intro x y
  have hx : ¬x.isNaN := by decide +kernel
  have hy : ¬y.isNaN := by decide +kernel
  exact ⟨⟨hx, (printed_number hx).1, by decide +kernel⟩,
    ⟨hy, (printed_number hy).1, by decide +kernel⟩⟩

end Lox
