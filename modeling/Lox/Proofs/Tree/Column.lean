import Lox.Proofs.Source.Number

namespace Lox

section Texts

variable {m : Nat} {e : Int} {n : Nat}

/-- A whole number of 64 bits or more has all of its shortest digits before the point. -/
theorem exponent_shortest_nonneg (hd : IsDouble m e) (hn : Quantity.whole? m e = some n)
    (hlarge : 2 ^ 63 ≤ n) : 0 ≤ (Decimal.shortest .up m e).exponent := by
  have hvalue := Quantity.whole?_eq_some_iff.mp hn
  have hlow : (2 : ℚ) ^ (63 : ℤ) ≤ m * 2 ^ e := by
    rw [hvalue]
    exact_mod_cast hlarge
  have hhigh : (m * 2 ^ e : ℚ) < 2 ^ ((m.log2 : ℤ) + 1 + e) := by
    rw [zpow_add₀ two_ne_zero]
    exact mul_lt_mul_of_pos_right (lt_two_zpow_log2 m) (by positivity)
  have hexp := (zpow_lt_zpow_iff_right₀ (by norm_num : (1 : ℚ) < 2)).mp (hlow.trans_lt hhigh)
  have hgrid := Decimal.le_exponent_shortest .up hd
  unfold Decimal.ceiling at hgrid
  omega

theorem isDigit_shortestPositional (hd : IsDouble m e) (hn : Quantity.whole? m e = some n)
    (hlarge : 2 ^ 63 ≤ n) : ∀ c ∈ Numeral.shortestPositional m e, c.isDigit := by
  obtain ⟨whole, places, htext, hnumeral, -, hplaces⟩ :=
    (Decimal.shortest .up m e).positional_spec
  obtain rfl := hplaces (exponent_shortest_nonneg hd hn hlarge)
  have htext' : Numeral.shortestPositional m e = whole ++ [] := htext
  rw [htext']
  exact hnumeral.digits

theorem listedMagnitude_eq_iff (hd : IsDouble m e) :
    Numeral.listedMagnitude m e = Numeral.literalMagnitude m e ↔
      ∀ n, Quantity.whole? m e = some n → n < 2 ^ 63 := by
  unfold Numeral.listedMagnitude Numeral.literalMagnitude
  cases hwhole : Quantity.whole? m e with
  | none => simp
  | some n =>
    simp only [Nat.pow_eq, Option.some.injEq, forall_eq']
    refine ⟨fun heq => ?_, fun hsmall => if_pos hsmall⟩
    by_contra hlarge
    have hpoint : '.' ∈ Decimal.natural n ++ ['.', '0'] := by simp
    rw [if_neg hlarge] at heq
    rw [← heq] at hpoint
    have hdigit := isDigit_shortestPositional hd hwhole (Nat.not_lt.mp hlarge) '.' hpoint
    cases hdigit

end Texts

section Column

variable {x : Float}

/-- The column and the symbolic form differ in the magnitude only. -/
theorem listed_eq_literal_iff (hx : Unsigned x.toModel.unpack) :
    Numeral.listed x = Numeral.literal x ↔
      ∀ n, (Quantity.ofFloat x).natural? = some n → n < 2 ^ 63 := by
  unfold Numeral.listed Numeral.literal
  rcases hx.quantity with h | h | ⟨m, e, hd, h⟩ <;> rw [h]
  · simp [Quantity.natural?, Numeral.ofQuantity]
  · refine iff_of_true rfl ?_
    rintro _ ⟨⟩
    norm_num
  · simp only [Numeral.ofQuantity, Numeral.signed, String.ofList_inj, Bool.false_eq_true, if_false]
    exact listedMagnitude_eq_iff hd

theorem finite_of_natural {n : Nat} (hn : (Quantity.ofFloat x).natural? = some n) (hpos : 0 < n) :
    ∃ m e, IsDouble m e ∧ Quantity.whole? m e = some n ∧
      Quantity.ofFloat x = .finite false m e := by
  obtain ⟨m, e, hm, hunpack, hvalue⟩ := unpack_of_natural? hpos hn
  refine ⟨m, e, isDouble_of_unpack hunpack, Quantity.whole?_eq_some_iff.mpr hvalue, ?_⟩
  unfold Quantity.ofFloat
  rw [hunpack]
  rfl

theorem literal_of_natural {n : Nat} (hn : (Quantity.ofFloat x).natural? = some n) :
    Numeral.literal x = String.ofList (Decimal.natural n ++ ['.', '0']) := by
  unfold Numeral.literal
  unfold Quantity.natural? at hn
  split at hn
  next m e hfinite =>
    rw [hfinite]
    simp [Numeral.ofQuantity, Numeral.signed, Numeral.literalMagnitude, hn]
  next => cases hn

theorem isDigit_listed {n : Nat} (hn : (Quantity.ofFloat x).natural? = some n)
    (hlarge : 2 ^ 63 ≤ n) : ∀ c ∈ (Numeral.listed x).toList, c.isDigit := by
  obtain ⟨m, e, hd, hwhole, hfinite⟩ :=
    finite_of_natural hn (Nat.lt_of_lt_of_le (by norm_num) hlarge)
  have hmagnitude : Numeral.listedMagnitude m e = Numeral.shortestPositional m e := by
    unfold Numeral.listedMagnitude
    simp only [hwhole]
    exact if_neg (Nat.not_lt.mpr hlarge)
  have hlisted : (Numeral.listed x).toList = Numeral.shortestPositional m e := by
    unfold Numeral.listed
    simp [hfinite, Numeral.ofQuantity, Numeral.signed, hmagnitude]
  rw [hlisted]
  exact isDigit_shortestPositional hd hwhole hlarge

theorem literal_of_not_natural (hx : Unsigned x.toModel.unpack)
    (hn : (Quantity.ofFloat x).natural? = none) : Numeral.literal x = Numeral.plain x := by
  unfold Numeral.literal Numeral.plain
  rcases hx.quantity with h | h | ⟨m, e, -, h⟩ <;> rw [h] at hn ⊢
  · rfl
  · cases hn
  · have hwhole : Quantity.whole? m e = none := hn
    simp [Numeral.ofQuantity, Numeral.literalMagnitude, hwhole]

/-- The tree of a single number is the number. -/
theorem read_number {t : Token} (hk : t.kind = .number x) (firstId : Nat) :
    (Grammar.read Grammar.wholeExpression [t] firstId).result = .ok (.literal (.number x)) := by
  have hprimary : Grammar.Derives true false (.expression .primary) [t] (.literal (.number x)) :=
    .literal (by rw [hk]; rfl)
  have huntil : Grammar.untilEnd [t] = [t] := by simp [Grammar.untilEnd, hk]
  have hassignment : Grammar.Derives true false (.expression .assignment) (Grammar.untilEnd [t])
      (.literal (.number x)) := by
    rw [huntil]
    exact .operand rfl <| .operand rfl <| .operand rfl <| .operand rfl <| .operand rfl <|
      .operand rfl <| .operand rfl <| .operand rfl <| .operand rfl hprimary
  obtain ⟨e, hread, he⟩ := Grammar.read_wholeExpression_of_derives firstId hassignment
  rw [hread]
  cases e <;> simp [Expr.forget] at he
  rw [he]

/-- The two texts of a number that was read: a whole number has its digits and one place in the
symbolic form, and in the listing too if it has fewer than 64 bits, but only digits from there on.
All other numbers have the same plain digits in both. -/
theorem literal_column {source : String} {t : Token} (ht : t ∈ tokens (scan source))
    (hk : t.kind = .number x) (firstId : Nat) :
    ∃ e, (Grammar.read Grammar.wholeExpression [t] firstId).result = .ok e ∧
      (t.kind.literal = e.symbolic ↔
        ∀ n, (Quantity.ofFloat x).natural? = some n → n < 2 ^ 63) ∧
      (∀ n, (Quantity.ofFloat x).natural? = some n →
        e.symbolic = String.ofList (Decimal.natural n ++ ['.', '0']) ∧
        (2 ^ 63 ≤ n → ∀ c ∈ t.kind.literal.toList, c.isDigit)) ∧
      ((Quantity.ofFloat x).natural? = none →
        e.symbolic = Numeral.plain x ∧ (x.isFinite → ReadsBack x)) := by
  have hx := unsigned_of_mem_tokens ht hk
  have hcolumn : t.kind.literal = Numeral.listed x := by rw [hk]; rfl
  have hsymbolic : (Expr.literal (.number x)).symbolic = Numeral.literal x := rfl
  refine ⟨.literal (.number x), read_number hk firstId, ?_⟩
  rw [hcolumn, hsymbolic]
  exact ⟨listed_eq_literal_iff hx, fun n hn => ⟨literal_of_natural hn, isDigit_listed hn⟩,
    fun hn => ⟨literal_of_not_natural hx hn, readsBack_of_unsigned hx⟩⟩

theorem literal_column_three :
    let x := numeralValue ['3'] []
    let t : Token := ⟨.number x, "3", 1⟩
    (t ∈ tokens (scan "3") ∧ t.kind = .number x) ∧
      ∃ e, (Grammar.read Grammar.wholeExpression [t] 0).result = .ok e ∧
        t.kind.literal = e.symbolic ∧ e.symbolic = "3.0" := by
  intro x t
  have ht : t ∈ tokens (scan "3") := by decide +kernel
  have hthree : (Quantity.ofFloat x).natural? = some 3 := by decide +kernel
  obtain ⟨e, hread, hsame, hwhole, -⟩ := literal_column ht rfl 0
  refine ⟨⟨ht, rfl⟩, e, hread, hsame.mpr fun n hn => ?_, (hwhole 3 hthree).1⟩
  obtain rfl := Option.some.inj (hn.symm.trans hthree)
  norm_num

/-- The least whole number of 64 bits. -/
theorem literal_column_large :
    let x := numeralValue "9223372036854775808".toList []
    let t : Token := ⟨.number x, "9223372036854775808", 1⟩
    t ∈ tokens (scan "9223372036854775808") ∧
      ∃ e, (Grammar.read Grammar.wholeExpression [t] 0).result = .ok e ∧
        t.kind.literal ≠ e.symbolic ∧ t.kind.literal = "9223372036854776000" ∧
        e.symbolic = "9223372036854775808.0" := by
  intro x t
  have hcolumn : t.kind.literal = "9223372036854776000" := by decide +kernel
  have hsymbolic : (Expr.literal (.number x)).symbolic = "9223372036854775808.0" := by
    decide +kernel
  refine ⟨by decide +kernel, .literal (.number x), read_number rfl 0, ?_, hcolumn, hsymbolic⟩
  rw [hcolumn, hsymbolic]
  decide

end Column

end Lox
