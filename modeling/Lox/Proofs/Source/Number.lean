import Lox.Proofs.Decimal.Overflow
import Lox.Proofs.Decimal.Shortest
import Lox.Proofs.Source.RoundTrip

namespace Lox

open Float.Model Float.Model.UnpackedFloat

/-- The text is a single token of this kind. -/
def IsToken (text : String) (k : Kind) : Prop :=
  ∃ line, scan text = [.ok ⟨k, text, line⟩, .ok ⟨.eof, "", line⟩]

theorem IsWord.isToken {k : Kind} {text : String} (h : IsWord k text.toList) : IsToken text k := by
  obtain ⟨line, hitems⟩ := items_word h (endsWord_nil k) 1
  rw [List.append_nil, items_nil, String.ofList_toList] at hitems
  exact ⟨line, hitems⟩

theorem IsToken.kind_eq {text : String} {k k' : Kind} (h : IsToken text k) (h' : IsToken text k') :
    k = k' := by
  obtain ⟨line, hscan⟩ := h
  obtain ⟨line', hscan'⟩ := h'
  rw [hscan] at hscan'
  simp only [List.cons.injEq, Except.ok.injEq, Token.mk.injEq] at hscan'
  exact hscan'.1.1

theorem IsNumeral.isWord {whole places : List Char} (h : IsNumeral whole places) :
    IsWord (.number (numeralValue whole places)) (numeralText whole places) := by
  have hwhole : ∀ d ∈ whole, d.isDigit := fun d hd => h.digits d (by simp [hd])
  unfold numeralText
  split
  next hplaces =>
    subst hplaces
    rw [List.append_nil]
    exact isWord_whole hwhole h.nonempty
  next hplaces =>
    exact isWord_places hwhole h.nonempty (fun d hd => h.digits d (by simp [hd])) hplaces

section Plain

variable {x : Float} {m : Nat} {e : Int} {hm : 0 < m}

theorem plain_of_finite (hx : x.toModel.unpack = .finite .positive m e hm) :
    (Numeral.plain x).toList = (Decimal.shortest .up m e).positional := by
  unfold Numeral.plain Quantity.ofFloat
  rw [hx, String.toList_ofList]
  rfl

/-- The plain digits of a positive double are read back. -/
theorem readsBack_of_finite (hx : x.toModel.unpack = .finite .positive m e hm) : ReadsBack x := by
  have hd : IsDouble m e := isDouble_of_unpack hx
  obtain ⟨whole, places, htext, hnumeral, hvalue, -⟩ :=
    (Decimal.shortest .up m e).positional_spec
  have hrounds : RoundsTo (writtenValue whole places) m e := by
    rw [hvalue]
    exact Decimal.shortest_roundsTo .up hd
  refine ⟨whole, places, hnumeral.digits, hnumeral.nonempty, ?_, ?_⟩
  · rw [numeralValue_eq_double hd hrounds, ← hx, double_unpack]
  · rw [plain_of_finite hx, htext, numeralText]
    split
    · exact List.append_nil whole
    · rfl

theorem readsBack_of_zero (hx : x.toModel.unpack = .zero .positive) : ReadsBack x := by
  have hzero : x = double (.zero .positive) := by rw [← hx, double_unpack]
  subst hzero
  decide +kernel

theorem readsBack_of_unsigned (hx : Unsigned x.toModel.unpack) (hfinite : x.isFinite) :
    ReadsBack x := by
  replace hfinite : x.toModel.unpack.isFinite := hfinite
  cases hunpack : x.toModel.unpack with
  | notANumber => simp [hunpack, UnpackedFloat.isFinite] at hfinite
  | infinity sign => simp [hunpack, UnpackedFloat.isFinite] at hfinite
  | zero sign =>
    rw [hunpack] at hx
    obtain rfl : sign = .positive := hx
    exact readsBack_of_zero hunpack
  | finite sign m e hm =>
    rw [hunpack] at hx
    obtain rfl : sign = .positive := hx
    exact readsBack_of_finite hunpack

theorem plain_of_not_isFinite (hx : Unsigned x.toModel.unpack) (hfinite : ¬x.isFinite) :
    Numeral.plain x = "inf" := by
  have hinfinite : x.toModel.unpack = .infinity .positive := by
    replace hfinite : ¬x.toModel.unpack.isFinite := hfinite
    revert hx hfinite
    cases x.toModel.unpack <;> simp [Unsigned, UnpackedFloat.isFinite]
  unfold Numeral.plain Quantity.ofFloat
  rw [hinfinite]
  rfl

theorem isToken_inf : IsToken "inf" .identifier := by
  have hname : isName ['i', 'n', 'f'] := by decide
  exact IsWord.isToken (isWord_name hname)

/-- What was read is written as the same number exactly if it is finite. -/
theorem isToken_source_iff (hx : Unsigned x.toModel.unpack) :
    IsToken (Expr.literal (.number x)).source (.number x) ↔ x.isFinite := by
  refine ⟨fun htoken => ?_, fun hfinite => (readsBack_of_unsigned hx hfinite).isWord.isToken⟩
  by_contra hfinite
  have hsource : (Expr.literal (.number x)).source = "inf" := plain_of_not_isFinite hx hfinite
  rw [hsource] at htoken
  cases htoken.kind_eq isToken_inf

end Plain

theorem unsigned_numeralValue (whole places : List Char) :
    Unsigned (numeralValue whole places).toModel.unpack := unsigned_ofScientific _ _ _

theorem Lexeme.numeralValue_eq {k : Kind} {text : List Char} {x : Float} (h : Lexeme k text)
    (hk : k = .number x) : ∃ whole places, numeralValue whole places = x := by
  cases h with
  | mark h =>
    subst hk
    simp [marks] at h
  | keyword h =>
    subst hk
    cases spelling?_of_keyword? h
  | identifier => cases hk
  | whole =>
    cases hk
    exact ⟨_, [], rfl⟩
  | places =>
    cases hk
    exact ⟨_, _, rfl⟩
  | string => cases hk

theorem unsigned_of_mem_tokens {source : String} {t : Token} {x : Float}
    (ht : t ∈ tokens (scan source)) (hk : t.kind = .number x) : Unsigned x.toModel.unpack := by
  have hwritten : t.Written := (written_of_mem_tokens ht).resolve_left (by simp [hk])
  obtain ⟨c, cs, -, hnext⟩ := hwritten [] (endsWord_nil _)
  obtain ⟨whole, places, rfl⟩ := (lexeme_of_next hnext).numeralValue_eq hk
  exact unsigned_numeralValue whole places

/-- The plain digits of every finite number in a source are read back. -/
theorem readsBack_of_mem_tokens {source : String} {t : Token} {x : Float}
    (ht : t ∈ tokens (scan source)) (hk : t.kind = .number x) (hfinite : x.isFinite) :
    ReadsBack x :=
  readsBack_of_unsigned (unsigned_of_mem_tokens ht hk) hfinite

/-- A numeral is one token. The source of its number is one token too, of the same number exactly if
the numeral writes a number below the bound; from the bound on the source is a name. -/
theorem numeral_source {whole places : List Char} (h : IsNumeral whole places) :
    ∃ x, IsToken (String.ofList (numeralText whole places)) (.number x) ∧
      (IsToken (Expr.literal (.number x)).source (.number x) ↔
        writtenValue whole places < overflowBound) ∧
      (overflowBound ≤ writtenValue whole places →
        (Expr.literal (.number x)).source = "inf" ∧ IsToken "inf" .identifier) := by
  have hunsigned := unsigned_numeralValue whole places
  have hfinite := isFinite_numeralValue whole places
  refine ⟨numeralValue whole places, IsWord.isToken ?_, ?_, fun hlarge => ⟨?_, isToken_inf⟩⟩
  · rw [String.toList_ofList]
    exact h.isWord
  · rw [isToken_source_iff hunsigned, hfinite]
  · exact plain_of_not_isFinite hunsigned (by rw [hfinite]; exact not_lt.mpr hlarge)

/-- `1.50` and its value. -/
theorem numeral_source_fraction : IsNumeral ['1'] ['5', '0'] ∧
    ∃ x, IsToken "1.50" (.number x) ∧ IsToken (Expr.literal (.number x)).source (.number x) := by
  have hnumeral : IsNumeral ['1'] ['5', '0'] := ⟨by simp, by simp⟩
  obtain ⟨x, htoken, hsource, -⟩ := numeral_source hnumeral
  refine ⟨hnumeral, x, htoken, hsource.mpr ?_⟩
  have hvalue : writtenValue ['1'] ['5', '0'] = 3 / 2 := by
    have hdigits : digitsValue (['1'] ++ ['5', '0']) = 150 := rfl
    rw [writtenValue, hdigits]
    norm_num
  have hpow : (2 : ℚ) ^ (1 : ℤ) ≤ 2 ^ (1023 : ℤ) := zpow_le_zpow_right₀ (by norm_num) (by norm_num)
  have hbound := hpow.trans le_overflowBound
  rw [hvalue]
  norm_num at hbound ⊢
  linarith

/-- A one with 309 zeros is beyond the largest double, and its source is not a number. -/
theorem numeral_source_overflow :
    let whole := '1' :: Decimal.zeros 309
    ∃ x, IsToken (String.ofList whole) (.number x) ∧
      ¬IsToken (Expr.literal (.number x)).source (.number x) := by
  intro whole
  have hnumeral : IsNumeral whole [] := by
    refine ⟨List.cons_ne_nil _ _, fun d hd => ?_⟩
    rw [List.append_nil] at hd
    rcases List.mem_cons.mp hd with rfl | hd
    · rfl
    · exact Decimal.isDigit_of_mem_zeros hd
  have hvalue : digitsValue whole = 10 ^ 309 := by
    rw [show whole = ['1'] ++ Decimal.zeros 309 from rfl, digitsValue_append, digitsValue_zeros,
      Decimal.zeros, List.length_replicate, show digitsValue ['1'] = 1 from rfl, mul_one, add_zero]
  have hinfinite : ¬(numeralValue whole []).isFinite := by
    rw [numeralValue, List.append_nil, hvalue]
    decide +kernel
  refine ⟨numeralValue whole [], IsWord.isToken ?_, ?_⟩
  · rw [String.toList_ofList]
    simpa [numeralText] using hnumeral.isWord
  · rwa [isToken_source_iff (unsigned_numeralValue whole [])]

end Lox
