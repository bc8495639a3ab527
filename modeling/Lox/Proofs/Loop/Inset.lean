import Lox.Scope
import Lox.Tree
import Mathlib.Data.List.Forall2
import Std.Data.TreeMap

namespace Lox

/-- How far a stretch of text is inside the empty scope. -/
inductive Inset where
  | outside
  /-- So many scopes are in between. -/
  | inside (scopes : Nat)

namespace Inset

/-- One scope further in. -/
def inner : Inset → Inset
  | outside => outside
  | inside scopes => inside (scopes + 1)

/-- A number of hops, with one more over the empty scope. -/
def hops : Inset → Nat → Nat
  | outside, depth => depth
  | inside scopes, depth => if depth < scopes then depth else depth + 1

/-- The address of the same cell, where the empty scope is around. -/
def skip (k : Inset) (a : Address) : Address := ⟨k.hops a.depth, a.slot⟩

variable {k : Inset}

theorem inner_ne (k : Inset) : k.inner ≠ inside 0 := by
  cases k <;> simp [inner]

theorem hops_zero (hk : k ≠ inside 0) : k.hops 0 = 0 := by
  cases k with
  | outside => rfl
  | inside scopes => exact if_pos (Nat.pos_of_ne_zero fun h => hk (h ▸ rfl))

theorem hops_inner (k : Inset) (depth : Nat) : k.inner.hops (depth + 1) = k.hops depth + 1 := by
  cases k with
  | outside => rfl
  | inside scopes =>
    simp only [inner, hops, Nat.add_lt_add_iff_right]
    split <;> rfl

theorem hops_succ {depth : Nat} (h : k ≠ inside (depth + 1)) :
    k.hops (depth + 1) = k.hops depth + 1 := by
  cases k with
  | outside => rfl
  | inside scopes =>
    have hne : scopes ≠ depth + 1 := fun heq => h (heq ▸ rfl)
    simp only [hops]
    split <;> split <;> omega

end Inset

/-- What the nodes of two trees are bound to. -/
structure Tables where
  left : Std.TreeMap Nat Address
  right : Std.TreeMap Nat Address

variable (A : Tables)

/-- The node `i` finds what `i'` does, over the empty scope. -/
def Shifts (k : Inset) (i i' : Nat) : Prop := A.left[i]? = A.right[i']?.map k.skip

/-- The empty scope is not between those of a `super` and its `this`. -/
def ShiftsSuper (k : Inset) (i i' : Nat) : Prop :=
  Shifts A k i i' ∧ ∀ a, A.right[i']? = some a → k ≠ .inside a.depth

mutual

/-- The same tree with shifted nodes. Right inside the empty scope nothing is declared. -/
inductive Expr.Moved : Inset → Expr → Expr → Prop where
  | literal {k} (value : Literal) : Expr.Moved k (.literal value) (.literal value)
  | grouping {k e e'} : Expr.Moved k e e' → Expr.Moved k (.grouping e) (.grouping e')
  | unary {k} (t : Token) {e e'} : Expr.Moved k e e' → Expr.Moved k (.unary t e) (.unary t e')
  | binary {k e₁ e₁'} (t : Token) {e₂ e₂'} : Expr.Moved k e₁ e₁' → Expr.Moved k e₂ e₂' →
      Expr.Moved k (.binary e₁ t e₂) (.binary e₁' t e₂')
  | logical {k e₁ e₁'} (t : Token) {e₂ e₂'} : Expr.Moved k e₁ e₁' → Expr.Moved k e₂ e₂' →
      Expr.Moved k (.logical e₁ t e₂) (.logical e₁' t e₂')
  | variable {k i i'} (t : Token) : Shifts A k i i' →
      Expr.Moved k (.variable i t) (.variable i' t)
  | assign {k i i'} (t : Token) {e e'} : Shifts A k i i' → Expr.Moved k e e' →
      Expr.Moved k (.assign i t e) (.assign i' t e')
  | call {k e e'} (t : Token) {es es'} : Expr.Moved k e e' → MovedAll k es es' →
      Expr.Moved k (.call e t es) (.call e' t es')
  | get {k e e'} (t : Token) : Expr.Moved k e e' → Expr.Moved k (.get e t) (.get e' t)
  | set {k e₁ e₁'} (t : Token) {e₂ e₂'} : Expr.Moved k e₁ e₁' → Expr.Moved k e₂ e₂' →
      Expr.Moved k (.set e₁ t e₂) (.set e₁' t e₂')
  | this {k i i'} (t : Token) : Shifts A k i i' → Expr.Moved k (.this i t) (.this i' t)
  | super {k i i'} (t u : Token) : ShiftsSuper A k i i' →
      Expr.Moved k (.super i t u) (.super i' t u)
  | function {k f f'} : Function.Moved k f f' → Expr.Moved k (.function f) (.function f')

inductive MovedAll : Inset → List Expr → List Expr → Prop where
  | nil (k : Inset) : MovedAll k [] []
  | cons {k e e' es es'} : Expr.Moved k e e' → MovedAll k es es' → MovedAll k (e :: es) (e' :: es')

inductive Function.Moved : Inset → Function → Function → Prop where
  | mk {k} (params : List Token) {body body'} : MovedStatements k.inner body body' →
      Function.Moved k ⟨params, body⟩ ⟨params, body'⟩

inductive Stmt.Moved : Inset → Stmt → Stmt → Prop where
  | expression {k e e'} : Expr.Moved k e e' → Stmt.Moved k (.expression e) (.expression e')
  | print {k e e'} : Expr.Moved k e e' → Stmt.Moved k (.print e) (.print e')
  | var {k} (t : Token) : k ≠ .inside 0 → Stmt.Moved k (.var t none) (.var t none)
  | initialized {k} (t : Token) {e e'} : k ≠ .inside 0 → Expr.Moved k e e' →
      Stmt.Moved k (.var t (some e)) (.var t (some e'))
  | block {k ss ss'} : MovedStatements k.inner ss ss' → Stmt.Moved k (.block ss) (.block ss')
  | if {k e e' s s'} : Expr.Moved k e e' → Stmt.Moved k s s' →
      Stmt.Moved k (.ifElse e s none) (.ifElse e' s' none)
  | ifElse {k e e' s₁ s₁' s₂ s₂'} : Expr.Moved k e e' → Stmt.Moved k s₁ s₁' →
      Stmt.Moved k s₂ s₂' → Stmt.Moved k (.ifElse e s₁ (some s₂)) (.ifElse e' s₁' (some s₂'))
  | while {k e e' s s'} : Expr.Moved k e e' → Stmt.Moved k s s' →
      Stmt.Moved k (.while e s) (.while e' s')
  | break (k : Inset) (t : Token) : Stmt.Moved k (.break t) (.break t)
  | return (k : Inset) (t : Token) : Stmt.Moved k (.return t none) (.return t none)
  | returned {k} (t : Token) {e e'} : Expr.Moved k e e' →
      Stmt.Moved k (.return t (some e)) (.return t (some e'))
  | function {k} (t : Token) {f f'} : k ≠ .inside 0 → Function.Moved k f f' →
      Stmt.Moved k (.function ⟨t, f⟩) (.function ⟨t, f'⟩)
  | class {k} (t : Token) {ms ms'} : k ≠ .inside 0 → MovedMethods k.inner ms ms' →
      Stmt.Moved k (.class t none ms) (.class t none ms')
  | subclass {k} (t : Token) {e e' ms ms'} : k ≠ .inside 0 → Expr.Moved k e e' →
      MovedMethods k.inner.inner ms ms' →
      Stmt.Moved k (.class t (some e) ms) (.class t (some e') ms')

inductive MovedStatements : Inset → List Stmt → List Stmt → Prop where
  | nil (k : Inset) : MovedStatements k [] []
  | cons {k s s' ss ss'} : Stmt.Moved k s s' → MovedStatements k ss ss' →
      MovedStatements k (s :: ss) (s' :: ss')

inductive MovedMethods : Inset → List Method → List Method → Prop where
  | nil (k : Inset) : MovedMethods k [] []
  | cons {k} (t : Token) {f f' ms ms'} : Function.Moved k f f' → MovedMethods k ms ms' →
      MovedMethods k (⟨t, f⟩ :: ms) (⟨t, f'⟩ :: ms')

end

variable {A}

mutual

theorem Expr.Moved.line {k : Inset} {e e' : Expr} : e.Moved A k e' → e.line = e'.line
  | .literal _ | .unary _ _ | .binary _ _ _ | .logical _ _ _ | .variable _ _ | .assign _ _ _
  | .call _ _ _ | .get _ _ | .set _ _ _ | .this _ _ | .super _ _ _ => rfl
  | .grouping h => h.line
  | .function h => h.line
termination_by structural h => h

theorem Function.Moved.line {k : Inset} {f f' : Function} : f.Moved A k f' →
    (Expr.function f).line = (Expr.function f').line
  | .mk (_ :: _) _ => rfl
  | .mk [] (.nil _) => rfl
  | .mk [] (.cons h _) => h.line
termination_by structural h => h

theorem Stmt.Moved.line {k : Inset} {s s' : Stmt} : s.Moved A k s' → s.line = s'.line
  | .expression h | .print h | .if h _ | .ifElse h _ _ | .while h _ => h.line
  | .block h => h.line
  | .var _ _ | .initialized _ _ _ | .break _ _ | .return _ _ | .returned _ _ | .function _ _ _
  | .class _ _ _ | .subclass _ _ _ _ => rfl
termination_by structural h => h

theorem MovedStatements.line {k : Inset} {ss ss' : List Stmt} : MovedStatements A k ss ss' →
    (Stmt.block ss).line = (Stmt.block ss').line
  | .nil _ => rfl
  | .cons h _ => h.line
termination_by structural h => h

end

theorem Function.Moved.params {k : Inset} {f f' : Function} (h : f.Moved A k f') :
    f.params = f'.params := by
  cases h
  rfl

theorem Function.Moved.body {k : Inset} {f f' : Function} (h : f.Moved A k f') :
    MovedStatements A k.inner f.body f'.body := by
  cases h with
  | mk _ hbody => exact hbody

theorem MovedMethods.forall₂ {k : Inset} {ms ms' : List Method} : MovedMethods A k ms ms' →
    List.Forall₂ (fun m m' => m.name = m'.name ∧ m.function.Moved A k m'.function) ms ms'
  | .nil _ => .nil
  | .cons _ hf hms => .cons ⟨rfl, hf⟩ hms.forall₂
termination_by structural h => h

end Lox
