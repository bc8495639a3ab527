import Lox.Proofs.Rename.Steps

namespace Lox

variable (R : Renaming)

/-- The node names a local. -/
def Renaming.Notes (id : Nat) : Prop := ∃ a, (id, a) ∈ R.notes

/-- The name of a node. -/
def Token.RenamedAt (id : Nat) (t t' : Token) : Prop := t' = t ∨ R.Notes id ∧ t.Renamed R t'

/-- The name of a declaration. -/
def Token.RenamedIn (inside : Bool) (t t' : Token) : Prop := t' = t ∨ inside = true ∧ t.Renamed R t'

mutual

inductive Expr.Renamed : Expr → Expr → Prop where
  | literal (value : Literal) : Expr.Renamed (.literal value) (.literal value)
  | grouping {e e'} : Expr.Renamed e e' → Expr.Renamed (.grouping e) (.grouping e')
  | unary (t : Token) {e e'} : Expr.Renamed e e' → Expr.Renamed (.unary t e) (.unary t e')
  | binary {e₁ e₁'} (t : Token) {e₂ e₂'} : Expr.Renamed e₁ e₁' → Expr.Renamed e₂ e₂' →
      Expr.Renamed (.binary e₁ t e₂) (.binary e₁' t e₂')
  | logical {e₁ e₁'} (t : Token) {e₂ e₂'} : Expr.Renamed e₁ e₁' → Expr.Renamed e₂ e₂' →
      Expr.Renamed (.logical e₁ t e₂) (.logical e₁' t e₂')
  | variable {id t t'} : t.RenamedAt R id t' → Expr.Renamed (.variable id t) (.variable id t')
  | assign {id t t' e e'} : t.RenamedAt R id t' → Expr.Renamed e e' →
      Expr.Renamed (.assign id t e) (.assign id t' e')
  | call {e e'} (t : Token) {es es'} : Expr.Renamed e e' → RenamedAll es es' →
      Expr.Renamed (.call e t es) (.call e' t es')
  | get {e e'} (t : Token) : Expr.Renamed e e' → Expr.Renamed (.get e t) (.get e' t)
  | set {e₁ e₁'} (t : Token) {e₂ e₂'} : Expr.Renamed e₁ e₁' → Expr.Renamed e₂ e₂' →
      Expr.Renamed (.set e₁ t e₂) (.set e₁' t e₂')
  | this (id : Nat) (t : Token) : Expr.Renamed (.this id t) (.this id t)
  | super (id : Nat) (t u : Token) : Expr.Renamed (.super id t u) (.super id t u)
  | function {f f'} : Function.Renamed f f' → Expr.Renamed (.function f) (.function f')

inductive RenamedAll : List Expr → List Expr → Prop where
  | nil : RenamedAll [] []
  | cons {e e' es es'} : Expr.Renamed e e' → RenamedAll es es' → RenamedAll (e :: es) (e' :: es')

inductive Function.Renamed : Function → Function → Prop where
  | mk {params params' body body'} : List.Forall₂ (Token.Renamed R) params params' →
      RenamedStatements true body body' → Function.Renamed ⟨params, body⟩ ⟨params', body'⟩

inductive Stmt.Renamed : Bool → Stmt → Stmt → Prop where
  | expression {inside e e'} : Expr.Renamed e e' →
      Stmt.Renamed inside (.expression e) (.expression e')
  | print {inside e e'} : Expr.Renamed e e' → Stmt.Renamed inside (.print e) (.print e')
  | var {inside t t'} : t.RenamedIn R inside t' → Stmt.Renamed inside (.var t none) (.var t' none)
  | initialized {inside t t' e e'} : t.RenamedIn R inside t' → Expr.Renamed e e' →
      Stmt.Renamed inside (.var t (some e)) (.var t' (some e'))
  | block {inside ss ss'} : RenamedStatements true ss ss' →
      Stmt.Renamed inside (.block ss) (.block ss')
  | if {inside e e' s s'} : Expr.Renamed e e' → Stmt.Renamed inside s s' →
      Stmt.Renamed inside (.ifElse e s none) (.ifElse e' s' none)
  | ifElse {inside e e' s₁ s₁' s₂ s₂'} : Expr.Renamed e e' → Stmt.Renamed inside s₁ s₁' →
      Stmt.Renamed inside s₂ s₂' →
      Stmt.Renamed inside (.ifElse e s₁ (some s₂)) (.ifElse e' s₁' (some s₂'))
  | while {inside e e' s s'} : Expr.Renamed e e' → Stmt.Renamed inside s s' →
      Stmt.Renamed inside (.while e s) (.while e' s')
  | break (inside : Bool) (t : Token) : Stmt.Renamed inside (.break t) (.break t)
  | return (inside : Bool) (t : Token) : Stmt.Renamed inside (.return t none) (.return t none)
  | returned {inside} (t : Token) {e e'} : Expr.Renamed e e' →
      Stmt.Renamed inside (.return t (some e)) (.return t (some e'))
  | function {inside} (t : Token) {f f'} : Function.Renamed f f' →
      Stmt.Renamed inside (.function ⟨t, f⟩) (.function ⟨t, f'⟩)
  | class {inside} (t : Token) {ms ms'} : RenamedMethods ms ms' →
      Stmt.Renamed inside (.class t none ms) (.class t none ms')
  | subclass {inside} (t : Token) {e e' ms ms'} : Expr.Renamed e e' → RenamedMethods ms ms' →
      Stmt.Renamed inside (.class t (some e) ms) (.class t (some e') ms')

inductive RenamedStatements : Bool → List Stmt → List Stmt → Prop where
  | nil (inside : Bool) : RenamedStatements inside [] []
  | cons {inside s s' ss ss'} : Stmt.Renamed inside s s' → RenamedStatements inside ss ss' →
      RenamedStatements inside (s :: ss) (s' :: ss')

inductive RenamedMethods : List Method → List Method → Prop where
  | nil : RenamedMethods [] []
  | cons (t : Token) {f f' ms ms'} : Function.Renamed f f' → RenamedMethods ms ms' →
      RenamedMethods (⟨t, f⟩ :: ms) (⟨t, f'⟩ :: ms')

end

variable {R}

theorem Token.Renamed.line {t t' : Token} (h : t.Renamed R t') : t'.line = t.line := by
  rcases h with rfl | ⟨-, rfl⟩ <;> rfl

theorem Token.RenamedAt.renamed {id : Nat} {t t' : Token} (h : t.RenamedAt R id t') :
    t.Renamed R t' := by
  rcases h with rfl | ⟨-, h⟩
  · exact .inl rfl
  · exact h

theorem Token.RenamedAt.line {id : Nat} {t t' : Token} (h : t.RenamedAt R id t') :
    t'.line = t.line := h.renamed.line

theorem Token.RenamedIn.line {inside : Bool} {t t' : Token} (h : t.RenamedIn R inside t') :
    t'.line = t.line := by
  rcases h with rfl | ⟨-, h⟩
  · rfl
  · exact h.line

mutual

theorem Expr.renamed_self : (e : Expr) → e.Renamed R e
  | .literal value => .literal value
  | .grouping e => .grouping e.renamed_self
  | .unary t e => .unary t e.renamed_self
  | .binary e₁ t e₂ => .binary t e₁.renamed_self e₂.renamed_self
  | .logical e₁ t e₂ => .logical t e₁.renamed_self e₂.renamed_self
  | .variable _ _ => .variable (.inl rfl)
  | .assign _ _ e => .assign (.inl rfl) e.renamed_self
  | .call e t es => .call t e.renamed_self (renamedAll_self es)
  | .get e t => .get t e.renamed_self
  | .set e₁ t e₂ => .set t e₁.renamed_self e₂.renamed_self
  | .this id t => .this id t
  | .super id t u => .super id t u
  | .function f => .function f.renamed_self

theorem renamedAll_self : (es : List Expr) → RenamedAll R es es
  | [] => .nil
  | e :: es => .cons e.renamed_self (renamedAll_self es)

theorem Function.renamed_self : (f : Function) → f.Renamed R f
  | ⟨_, body⟩ => .mk (List.forall₂_same.mpr fun _ _ => .inl rfl) (renamedStatements_self true body)

theorem Stmt.renamed_self (inside : Bool) : (s : Stmt) → s.Renamed R inside s
  | .expression e => .expression e.renamed_self
  | .print e => .print e.renamed_self
  | .var _ none => .var (.inl rfl)
  | .var _ (some e) => .initialized (.inl rfl) e.renamed_self
  | .block ss => .block (renamedStatements_self true ss)
  | .ifElse e s none => .if e.renamed_self (s.renamed_self inside)
  | .ifElse e s (some s') =>
    .ifElse e.renamed_self (s.renamed_self inside) (s'.renamed_self inside)
  | .while e s => .while e.renamed_self (s.renamed_self inside)
  | .break t => .break inside t
  | .return t none => .return inside t
  | .return t (some e) => .returned t e.renamed_self
  | .function ⟨t, f⟩ => .function t f.renamed_self
  | .class t none ms => .class t (renamedMethods_self ms)
  | .class t (some e) ms => .subclass t e.renamed_self (renamedMethods_self ms)

theorem renamedStatements_self (inside : Bool) : (ss : List Stmt) → RenamedStatements R inside ss ss
  | [] => .nil inside
  | s :: ss => .cons (s.renamed_self inside) (renamedStatements_self inside ss)

theorem renamedMethods_self : (ms : List Method) → RenamedMethods R ms ms
  | [] => .nil
  | ⟨t, f⟩ :: ms => .cons t f.renamed_self (renamedMethods_self ms)

end

namespace Renaming

/-- A scope that is at hand is not that of the top level. -/
def Inside (inside : Bool) (aim : Aim) : Prop :=
  ∀ passed left, aim = .coming passed left → inside = true

variable {inside : Bool} {aim : Aim}

theorem inside_ahead (inside : Bool) (path : List Nat) (slot : Nat) :
    Inside inside (.ahead path slot) := by
  intro passed left heq
  cases heq

theorem inside_true (aim : Aim) : Inside true aim := fun _ _ _ => rfl

theorem Inside.child (h : Inside inside aim) (i : Nat) : Inside inside (aim.child i) := by
  intro passed left heq
  cases aim with
  | ahead path slot =>
    cases path with
    | nil => simp [Aim.child] at heq
    | cons j path =>
      rw [Aim.child_ahead] at heq
      split at heq <;> simp at heq
  | coming passed' left' => exact h passed' left' rfl
  | _ => simp [Aim.child] at heq

theorem Inside.skip (h : Inside inside aim) : Inside inside aim.skip := by
  intro passed left heq
  cases aim with
  | coming passed' left' => exact h passed' left' rfl
  | _ => simp [Aim.skip] at heq

theorem Inside.after (h : Inside inside aim) (s : Stmt) : Inside inside (R.after s aim) := by
  cases s with
  | var t value =>
    intro passed left heq
    cases aim with
    | coming passed' left' => exact h passed' left' rfl
    | _ => simp [after, past, Aim.skip] at heq
  | function d | «class» t superclass ms => exact h.skip
  | _ => exact h

theorem renamedIn_declared (h : Inside inside aim) (t : Token) :
    t.RenamedIn R inside (R.declared t aim) := by
  unfold declared
  split
  next passed => exact .inr ⟨h passed 0 rfl, renamed_respell t⟩
  next => exact .inl rfl

theorem renamed_declared (t : Token) (aim : Aim) : t.Renamed R (R.declared t aim) := by
  unfold declared
  split
  · exact renamed_respell t
  · exact .inl rfl

theorem renamedAt_used (id : Nat) (t : Token) (aim : Aim) : t.RenamedAt R id (R.used id t aim) := by
  unfold used
  split
  next a =>
    split
    next hmem => exact .inr ⟨⟨a, hmem⟩, renamed_respell t⟩
    next => exact .inl rfl
  next => exact .inl rfl

theorem renamed_params (ts : List Token) (aim : Aim) :
    List.Forall₂ (Token.Renamed R) ts (R.params ts aim) := by
  induction ts generalizing aim with
  | nil => exact .nil
  | cons t ts ih => exact .cons (renamed_declared t aim) (ih _)

end Renaming

mutual

theorem Expr.renamed_rename (aim : Aim) : (e : Expr) → e.Renamed R (e.rename R aim)
  | .literal value => .literal value
  | .grouping e => .grouping (e.renamed_rename _)
  | .unary t e => .unary t (e.renamed_rename _)
  | .binary e₁ t e₂ => .binary t (e₁.renamed_rename _) (e₂.renamed_rename _)
  | .logical e₁ t e₂ => .logical t (e₁.renamed_rename _) (e₂.renamed_rename _)
  | .variable id t => .variable (Renaming.renamedAt_used id t aim)
  | .assign id t e => .assign (Renaming.renamedAt_used id t aim) (e.renamed_rename _)
  | .call e t es => .call t (e.renamed_rename _) (renamed_renameAll _ es)
  | .get e t => .get t (e.renamed_rename _)
  | .set e₁ t e₂ => .set t (e₁.renamed_rename _) (e₂.renamed_rename _)
  | .this id t => .this id t
  | .super id t u => .super id t u
  | .function f => .function (f.renamed_rename _)

theorem renamed_renameAll (aim : Aim) : (es : List Expr) → RenamedAll R es (renameAll R aim es)
  | [] => .nil
  | e :: es => .cons (e.renamed_rename _) (renamed_renameAll _ es)

theorem Function.renamed_rename (aim : Aim) : (f : Function) → f.Renamed R (f.rename R aim)
  | ⟨params, body⟩ =>
    .mk (Renaming.renamed_params params _)
      (renamed_renameStatements true _ (Renaming.inside_true _) body)

theorem Stmt.renamed_rename (inside : Bool) (aim : Aim) (h : Renaming.Inside inside aim) :
    (s : Stmt) → s.Renamed R inside (s.rename R aim)
  | .expression e => .expression (e.renamed_rename _)
  | .print e => .print (e.renamed_rename _)
  | .var t none => .var (Renaming.renamedIn_declared h t)
  | .var t (some e) => .initialized (Renaming.renamedIn_declared h t) (e.renamed_rename _)
  | .block ss => .block (renamed_renameStatements true _ (Renaming.inside_true _) ss)
  | .ifElse e s none => .if (e.renamed_rename _) (s.renamed_rename inside _ (h.child 1))
  | .ifElse e s (some s') =>
    .ifElse (e.renamed_rename _) (s.renamed_rename inside _ (h.child 1))
      (s'.renamed_rename inside _ (h.child 2))
  | .while e s => .while (e.renamed_rename _) (s.renamed_rename inside _ (h.child 1))
  | .break t => .break inside t
  | .return t none => .return inside t
  | .return t (some e) => .returned t (e.renamed_rename _)
  | .function ⟨t, f⟩ => .function t (f.renamed_rename _)
  | .class t none ms => .class t (renamed_renameMethods _ ms)
  | .class t (some e) ms => .subclass t (e.renamed_rename _) (renamed_renameMethods _ ms)

theorem renamed_renameStatements (inside : Bool) (aim : Aim) (h : Renaming.Inside inside aim) :
    (ss : List Stmt) → RenamedStatements R inside ss (renameStatements R aim ss)
  | [] => .nil inside
  | s :: ss =>
    .cons (s.renamed_rename inside _ (h.child 0))
      (renamed_renameStatements inside _ ((h.child 1).after s) ss)

theorem renamed_renameMethods (aim : Aim) : (ms : List Method) →
    RenamedMethods R ms (renameMethods R aim ms)
  | [] => .nil
  | ⟨t, f⟩ :: ms => .cons t (f.renamed_rename _) (renamed_renameMethods _ ms)

end

mutual

theorem Expr.Renamed.line {e e' : Expr} : e.Renamed R e' → e'.line = e.line
  | .literal _ | .unary _ _ | .binary _ _ _ | .logical _ _ _ | .call _ _ _ | .get _ _ | .set _ _ _
  | .this _ _ | .super _ _ _ => rfl
  | .grouping h => h.line
  | .function h => h.line
  | .variable ht | .assign ht _ => ht.line
termination_by structural h => h

theorem Function.Renamed.line {f f' : Function} : f.Renamed R f' →
    (Expr.function f').line = (Expr.function f).line
  | .mk (.cons ht _) _ => ht.line
  | .mk .nil (.nil _) => rfl
  | .mk .nil (.cons h _) => h.line
termination_by structural h => h

theorem Stmt.Renamed.line {inside : Bool} {s s' : Stmt} : s.Renamed R inside s' → s'.line = s.line
  | .expression h | .print h | .if h _ | .ifElse h _ _ | .while h _ => h.line
  | .block h => h.line
  | .var ht | .initialized ht _ => ht.line
  | .function _ _ | .break _ _ | .return _ _ | .returned _ _ | .class _ _ | .subclass _ _ _ => rfl
termination_by structural h => h

theorem RenamedStatements.line {inside : Bool} {ss ss' : List Stmt} :
    RenamedStatements R inside ss ss' → (Stmt.block ss').line = (Stmt.block ss).line
  | .nil _ => rfl
  | .cons h _ => h.line
termination_by structural h => h

end

theorem RenamedMethods.forall₂ {ms ms' : List Method} : RenamedMethods R ms ms' →
    List.Forall₂ (fun m m' => m.name = m'.name ∧ m.function.Renamed R m'.function) ms ms'
  | .nil => .nil
  | .cons _ hf hms => .cons ⟨rfl, hf⟩ hms.forall₂
termination_by structural h => h

theorem Function.Renamed.arity {f f' : Function} (h : f.Renamed R f') :
    f.params.length = f'.params.length := by
  cases h with
  | mk hparams => exact hparams.length_eq

theorem Function.Renamed.body {f f' : Function} (h : f.Renamed R f') :
    RenamedStatements R true f.body f'.body := by
  cases h with
  | mk _ hbody => exact hbody

end Lox
