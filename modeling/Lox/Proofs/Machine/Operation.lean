import Lox.Proofs.Machine.Twin
import Lox.Proofs.Machine.World

namespace Lox

variable {C D : Closure → Closure → Prop} {v v' w w' u : Value}

theorem Value.Plain.fits {P : History} {W : World} {m : Machine} (h : v.Plain) : v.Fits P W m := by
  cases v with
  | function | «class» | «instance» => exact h.elim
  | _ => trivial

theorem Value.Plain.like (h : v.Plain) : v.Like C D v := by
  cases v with
  | function | «class» | «instance» => exact h.elim
  | _ => constructor

theorem Value.Plain.twin {K : Link} (h : v.Plain) : v.Twin K v := by
  cases v with
  | function | «class» | «instance» => exact h.elim
  | _ => constructor

namespace Operation

theorem plain_literal (value : Literal) : (literal value).Plain := by
  cases value <;> trivial

theorem plain_of_unary {operator : Token} (h : unary operator v = .ok w) : w.Plain := by
  unfold unary at h
  split at h
  all_goals cases h <;> trivial

theorem plain_of_add {line : Nat} (h : add line v w = .ok u) : u.Plain := by
  unfold add at h
  split at h
  all_goals cases h <;> trivial

theorem plain_of_onNumbers {operator : Token} {x y : Float} (h : onNumbers operator x y = .ok u) :
    u.Plain := by
  unfold onNumbers divide at h
  repeat' split at h
  all_goals cases h <;> trivial

theorem plain_of_binary {operator : Token} (h : binary operator v w = .ok u) : u.Plain := by
  unfold binary at h
  split at h
  · cases h
    trivial
  · cases h
    trivial
  · exact plain_of_add h
  · unfold numeric at h
    split at h
    · exact plain_of_onNumbers h
    · cases h

theorem unary_eq_of_like (t : Token) (hv : v.Like C D v') : unary t v = unary t v' := by
  obtain ⟨kind, lexeme, line⟩ := t
  cases kind with
  | bang => exact congrArg (fun b => Except.ok (Value.bool !b)) hv.truthy
  | minus => cases hv <;> rfl
  | _ => rfl

theorem add_eq_of_like (line : Nat) (hv : v.Like C D v') (hw : w.Like C D w') :
    add line v w = add line v' w' := by
  have htext := hv.text
  have htext' := hw.text
  cases hv with
  | string s =>
    show Except.ok (Value.string (s ++ w.text)) = .ok (.string (s ++ w'.text))
    rw [htext']
  | number x => cases hw <;> rfl
  | _ =>
    cases hw with
    | string s => simp only [add, htext]
    | _ => rfl

theorem numeric_eq_of_like (t : Token) (hv : v.Like C D v') (hw : w.Like C D w') :
    numeric t v w = numeric t v' w' := by
  cases hv with
  | number x => cases hw <;> rfl
  | _ => rfl

theorem binary_eq_of_like (t : Token) (hv : v.Like C D v') (hw : w.Like C D w') :
    binary t v w = binary t v' w' := by
  unfold binary
  rw [hv.equals hw, add_eq_of_like t.line hv hw, numeric_eq_of_like t hv hw]

theorem decides_eq_of_like (t : Token) (hv : v.Like C D v') : decides t v = decides t v' := by
  rw [decides, decides, hv.truthy]

/-- A plain result is like itself. -/
theorem like_of_plain {r : Except RuntimeError Value} (h : ∀ v, r = .ok v → v.Plain) :
    ExceptRel Eq (Value.Like C D) r r := by
  cases r with
  | ok v => exact .ok (h v rfl).like
  | error e => exact .error rfl

theorem like_unary (t : Token) (hv : v.Like C D v') :
    ExceptRel Eq (Value.Like C D) (unary t v) (unary t v') := by
  rw [unary_eq_of_like t hv]
  exact like_of_plain fun _ => plain_of_unary

theorem like_binary (t : Token) (hv : v.Like C D v') (hw : w.Like C D w') :
    ExceptRel Eq (Value.Like C D) (binary t v w) (binary t v' w') := by
  rw [binary_eq_of_like t hv hw]
  exact like_of_plain fun _ => plain_of_binary

section Lines

variable {K : Link} {operator operator' : Token}

theorem lined_unary (ht : operator.Twin K operator') (v : Value) :
    ExceptRel (RuntimeError.Twin K) Eq (unary operator v) (unary operator' v) := by
  obtain ⟨k, lexeme, l⟩ := operator
  obtain ⟨k', lexeme', l'⟩ := operator'
  obtain ⟨rfl, rfl, hl⟩ := ht
  have herror : RuntimeError.Twin K (.operandMustBeNumber lexeme l)
      (.operandMustBeNumber lexeme l') := ⟨rfl, .some hl⟩
  cases k with
  | bang => exact .ok rfl
  | minus =>
    cases v with
    | number x => exact .ok rfl
    | _ => exact .error herror
  | _ => exact .error herror

theorem lined_add {l l' : Nat} (hl : K.line l l') (v w : Value) :
    ExceptRel (RuntimeError.Twin K) Eq (add l v w) (add l' v w) := by
  have herror : RuntimeError.Twin K (.invalidAddition l) (.invalidAddition l') := ⟨rfl, .some hl⟩
  cases v with
  | string s => exact .ok rfl
  | number x =>
    cases w with
    | number _ | string _ => exact .ok rfl
    | _ => exact .error herror
  | _ =>
    cases w with
    | string s => exact .ok rfl
    | _ => exact .error herror

theorem lined_onNumbers (ht : operator.Twin K operator') (x y : Float) :
    ExceptRel (RuntimeError.Twin K) Eq (onNumbers operator x y) (onNumbers operator' x y) := by
  obtain ⟨k, lexeme, l⟩ := operator
  obtain ⟨k', lexeme', l'⟩ := operator'
  obtain ⟨rfl, rfl, hl⟩ := ht
  have herror : RuntimeError.Twin K (.operandsMustBeNumbers lexeme l)
      (.operandsMustBeNumbers lexeme l') := ⟨rfl, .some hl⟩
  cases k with
  | slash =>
    show ExceptRel _ _ (divide l x y) (divide l' x y)
    unfold divide
    split
    · have hzero : RuntimeError.Twin K (.divisionByZero l) (.divisionByZero l') :=
        ⟨rfl, .some hl⟩
      exact .error hzero
    · exact .ok rfl
  | minus | star | greater | greaterEqual | less | lessEqual => exact .ok rfl
  | _ => exact .error herror

theorem lined_numeric (ht : operator.Twin K operator') (v w : Value) :
    ExceptRel (RuntimeError.Twin K) Eq (numeric operator v w) (numeric operator' v w) := by
  have herror : RuntimeError.Twin K (.operandsMustBeNumbers operator.lexeme operator.line)
      (.operandsMustBeNumbers operator'.lexeme operator'.line) := by
    rw [ht.lexeme]
    exact ⟨rfl, .some ht.line⟩
  cases v with
  | number x =>
    cases w with
    | number y => exact lined_onNumbers ht x y
    | _ => exact .error herror
  | _ => exact .error herror

theorem lined_binary (ht : operator.Twin K operator') (v w : Value) :
    ExceptRel (RuntimeError.Twin K) Eq (binary operator v w) (binary operator' v w) := by
  have hnumeric := lined_numeric ht v w
  unfold binary
  rw [← ht.kind]
  split
  · exact .ok rfl
  · exact .ok rfl
  · exact lined_add ht.line v w
  · exact hnumeric

theorem twin_of_plain {r r' : Except RuntimeError Value}
    (h : ExceptRel (RuntimeError.Twin K) Eq r r') (hplain : ∀ v, r = .ok v → v.Plain) :
    ExceptRel (RuntimeError.Twin K) (Value.Twin K) r r' := by
  cases h with
  | ok heq =>
    obtain rfl := heq
    exact .ok (hplain _ rfl).twin
  | error he => exact .error he

theorem twin_literal (value : Literal) : (literal value).Twin K (literal value) :=
  (plain_literal value).twin

theorem twin_unary (ht : operator.Twin K operator') (hv : v.Twin K v') :
    ExceptRel (RuntimeError.Twin K) (Value.Twin K) (unary operator v) (unary operator' v') := by
  rw [← unary_eq_of_like operator' hv.like]
  exact twin_of_plain (lined_unary ht v) fun _ => plain_of_unary

theorem twin_binary (ht : operator.Twin K operator') (hv : v.Twin K v') (hw : w.Twin K w') :
    ExceptRel (RuntimeError.Twin K) (Value.Twin K) (binary operator v w)
      (binary operator' v' w') := by
  rw [← binary_eq_of_like operator' hv.like hw.like]
  exact twin_of_plain (lined_binary ht v w) fun _ => plain_of_binary

theorem decides_eq (ht : operator.Twin K operator') (hv : v.Twin K v') :
    decides operator v = decides operator' v' := by
  rw [← decides_eq_of_like operator' hv.like, decides, decides, ht.kind]

end Lines

end Operation

end Lox
