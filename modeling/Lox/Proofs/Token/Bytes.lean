import Lox.Token.Scanner
import Lox.Proofs.Token.Cut

namespace Lox

def encode (cs : List Char) : List UInt8 := cs.flatMap String.utf8EncodeChar

@[simp] theorem encode_nil : encode [] = [] := rfl

@[simp] theorem encode_cons (c : Char) (cs : List Char) :
    encode (c :: cs) = String.utf8EncodeChar c ++ encode cs := rfl

@[simp] theorem encode_append (cs ds : List Char) : encode (cs ++ ds) = encode cs ++ encode ds :=
  List.flatMap_append

theorem utf8EncodeChar_ascii {c : Char} (hc : c.toNat < 128) :
    String.utf8EncodeChar c = [UInt8.ofNat c.toNat] := by
  rw [String.utf8EncodeChar]
  exact if_pos (show c.val.toNat ≤ 127 from Nat.le_of_lt_succ hc)

theorem utf8EncodeChar_wide {c : Char} (hc : 128 ≤ c.toNat) :
    ∀ b ∈ String.utf8EncodeChar c, 128 ≤ b.toNat := by
  have hval : ¬c.val.toNat ≤ 127 := by
    have : c.toNat = c.val.toNat := rfl
    omega
  intro b hb
  rw [String.utf8EncodeChar] at hb
  simp only [if_neg hval] at hb
  split at hb
  · simp only [List.mem_cons, List.not_mem_nil, or_false] at hb
    rcases hb with rfl | rfl <;> rw [UInt8.toNat_ofNat'] <;> omega
  split at hb
  · simp only [List.mem_cons, List.not_mem_nil, or_false] at hb
    rcases hb with rfl | rfl | rfl <;> rw [UInt8.toNat_ofNat'] <;> omega
  · simp only [List.mem_cons, List.not_mem_nil, or_false] at hb
    rcases hb with rfl | rfl | rfl | rfl <;> rw [UInt8.toNat_ofNat'] <;> omega

theorem toNat_ofUInt8 (b : UInt8) : (Char.ofUInt8 b).toNat = b.toNat := rfl

theorem ofUInt8_ascii {c : Char} (hc : c.toNat < 128) :
    Char.ofUInt8 (UInt8.ofNat c.toNat) = c := by
  refine Char.toNat_inj.mp ?_
  rw [toNat_ofUInt8, UInt8.toNat_ofNat']
  omega

theorem map_ofUInt8_encode {cs : List Char} (h : ∀ c ∈ cs, c.toNat < 128) :
    (encode cs).map Char.ofUInt8 = cs := by
  induction cs with
  | nil => rfl
  | cons c cs ih =>
    have hc := h c (by simp)
    have ih := ih fun d hd => h d (List.mem_cons_of_mem c hd)
    simp [utf8EncodeChar_ascii hc, ofUInt8_ascii hc, ih]

/-- `P` does not tell characters beyond ASCII apart. -/
def AsciiClass (P : Char → Bool) : Prop :=
  ∀ c d : Char, 128 ≤ c.toNat → 128 ≤ d.toNat → P c = P d

theorem asciiClass_of_lt {P : Char → Bool} (h : ∀ c, P c → c.toNat < 128) : AsciiClass P := by
  have hfalse : ∀ c : Char, 128 ≤ c.toNat → P c = false := fun c hc =>
    Bool.eq_false_iff.mpr fun hP => absurd (h c hP) (Nat.not_lt.mpr hc)
  exact fun c d hc hd => (hfalse c hc).trans (hfalse d hd).symm

theorem asciiClass_ne {e : Char} (he : e.toNat < 128) : AsciiClass (fun c => decide (c ≠ e)) := by
  have htrue : ∀ c : Char, 128 ≤ c.toNat → decide (c ≠ e) = true := by
    rintro c hc
    refine decide_eq_true fun h => ?_
    subst h
    omega
  exact fun c d hc hd => (htrue c hc).trans (htrue d hd).symm

theorem lt_of_isAlphanum {c : Char} (h : c.isAlphanum) : c.toNat < 128 := by
  have hclass : (decide (c.val ≥ 'A'.val ∧ c.val ≤ 'Z'.val) ||
      (decide (c.val ≥ 'a'.val) && decide (c.val ≤ 'z'.val)) ||
      (decide (c.val ≥ '0'.val) && decide (c.val ≤ '9'.val))) = true := h
  simp only [Bool.or_eq_true, Bool.and_eq_true, decide_eq_true_eq, UInt32.le_iff_toNat_le,
    ge_iff_le] at hclass
  have : c.toNat = c.val.toNat := rfl
  have : 'Z'.val.toNat = 90 := rfl
  have : 'z'.val.toNat = 122 := rfl
  have : '9'.val.toNat = 57 := rfl
  omega

theorem lt_of_isNameChar {c : Char} (h : isNameChar c) : c.toNat < 128 := by
  simp only [isNameChar, Bool.or_eq_true, decide_eq_true_eq] at h
  rcases h with h | rfl
  · exact lt_of_isAlphanum h
  · decide

theorem lt_of_isDigit {c : Char} (h : c.isDigit) : c.toNat < 128 :=
  lt_of_isNameChar (isNameChar_of_isDigit h)

theorem takeWhile_encode {P : Char → Bool} (hP : AsciiClass P) (cs : List Char) :
    (encode cs).takeWhile (fun b => P (Char.ofUInt8 b)) = encode (cs.takeWhile P) := by
  induction cs with
  | nil => rfl
  | cons c cs ih =>
    rw [encode_cons, List.takeWhile_cons]
    by_cases hc : c.toNat < 128
    · rw [utf8EncodeChar_ascii hc, List.singleton_append, List.takeWhile_cons, ofUInt8_ascii hc]
      split
      · rw [ih, encode_cons, utf8EncodeChar_ascii hc]
        rfl
      · rfl
    · have hbytes : ∀ b ∈ String.utf8EncodeChar c, P (Char.ofUInt8 b) = P c := fun b hb =>
        hP _ _ (utf8EncodeChar_wide (Nat.not_lt.mp hc) b hb) (Nat.not_lt.mp hc)
      split
      next hPc =>
        rw [List.takeWhile_append_of_pos fun b hb => (hbytes b hb).trans hPc, ih, encode_cons]
      next hPc =>
        obtain ⟨b, bs, hb⟩ := List.exists_cons_of_ne_nil (String.utf8EncodeChar_ne_nil (c := c))
        rw [hb, List.cons_append, List.takeWhile_cons, hbytes b (by simp [hb]), if_neg hPc]
        rfl

theorem count_encode (cs : List Char) : (encode cs).count 10 = newlines cs := by
  induction cs with
  | nil => rfl
  | cons c cs ih =>
    have hsum : newlines (c :: cs) = newlines [c] + newlines cs := newlines_append [c] cs
    have hhead : (String.utf8EncodeChar c).count 10 = newlines [c] := by
      by_cases hc : c.toNat < 128
      · rw [utf8EncodeChar_ascii hc, newlines, List.count_singleton, List.count_singleton]
        congr 1
        rw [beq_iff_eq, beq_iff_eq]
        refine propext ?_
        refine ⟨fun h => ?_, fun h => by rw [h]; rfl⟩
        rw [← ofUInt8_ascii hc, h]
        rfl
      · have hnone : newlines [c] = 0 := by
          refine List.count_eq_zero_of_not_mem fun hmem => hc ?_
          rw [← List.mem_singleton.mp hmem]
          decide
        rw [hnone]
        refine List.count_eq_zero_of_not_mem fun hmem => ?_
        exact absurd (utf8EncodeChar_wide (Nat.not_lt.mp hc) 10 hmem) (by decide)
    rw [encode_cons, List.count_append, hhead, ih, hsum]

theorem length_encode (cs : List Char) : (encode cs).length = (String.ofList cs).utf8ByteSize := by
  rw [← String.size_toByteArray, String.toByteArray_ofList, List.utf8Encode,
    List.size_toByteArray]
  rfl

end Lox
