import Lox.Tree

namespace Lox

variable (f : Token → Token)

mutual

def Expr.forget : Expr → Expr
  | .literal value => .literal value
  | .grouping inner => .grouping inner.forget
  | .unary operator right => .unary (f operator) right.forget
  | .binary left operator right => .binary left.forget (f operator) right.forget
  | .logical left operator right => .logical left.forget (f operator) right.forget
  | .variable _ name => .variable 0 (f name)
  | .assign _ name value => .assign 0 (f name) value.forget
  | .call callee paren arguments => .call callee.forget (f paren) (forgetAll arguments)
  | .get object name => .get object.forget (f name)
  | .set object name value => .set object.forget (f name) value.forget
  | .this _ keyword => .this 0 (f keyword)
  | .super _ keyword method => .super 0 (f keyword) (f method)
  | .function function => .function function.forget

def forgetAll : List Expr → List Expr
  | [] => []
  | e :: es => e.forget :: forgetAll es

def Function.forget : Function → Function
  | ⟨params, body⟩ => ⟨params.map f, forgetStatements body⟩

def Method.forget : Method → Method
  | ⟨name, function⟩ => ⟨f name, function.forget⟩

def Stmt.forget : Stmt → Stmt
  | .expression expr => .expression expr.forget
  | .print expr => .print expr.forget
  | .var name none => .var (f name) none
  | .var name (some value) => .var (f name) (some value.forget)
  | .block statements => .block (forgetStatements statements)
  | .ifElse condition thenBranch none => .ifElse condition.forget thenBranch.forget none
  | .ifElse condition thenBranch (some elseBranch) =>
    .ifElse condition.forget thenBranch.forget (some elseBranch.forget)
  | .while condition body => .while condition.forget body.forget
  | .break keyword => .break (f keyword)
  | .return keyword none => .return (f keyword) none
  | .return keyword (some value) => .return (f keyword) (some value.forget)
  | .function declaration => .function declaration.forget
  | .class name none methods => .class (f name) none (forgetMethods methods)
  | .class name (some superclass) methods =>
    .class (f name) (some superclass.forget) (forgetMethods methods)

def forgetStatements : List Stmt → List Stmt
  | [] => []
  | s :: ss => s.forget :: forgetStatements ss

def forgetMethods : List Method → List Method
  | [] => []
  | m :: ms => m.forget :: forgetMethods ms

end

@[simp] theorem forgetAll_eq_map (es : List Expr) : forgetAll f es = es.map (Expr.forget f) := by
  induction es with
  | nil => simp [forgetAll]
  | cons e es ih => simp [forgetAll, ih]

@[simp] theorem forgetStatements_eq_map (ss : List Stmt) :
    forgetStatements f ss = ss.map (Stmt.forget f) := by
  induction ss with
  | nil => simp [forgetStatements]
  | cons s ss ih => simp [forgetStatements, ih]

@[simp] theorem forgetMethods_eq_map (ms : List Method) :
    forgetMethods f ms = ms.map (Method.forget f) := by
  induction ms with
  | nil => simp [forgetMethods]
  | cons m ms ih => simp [forgetMethods, ih]

@[simp] theorem Stmt.forget_var (name : Token) (value : Option Expr) :
    (Stmt.var name value).forget f = .var (f name) (value.map (Expr.forget f)) := by
  cases value <;> simp [Stmt.forget]

@[simp] theorem Stmt.forget_ifElse (condition : Expr) (thenBranch : Stmt)
    (elseBranch : Option Stmt) : (Stmt.ifElse condition thenBranch elseBranch).forget f =
      .ifElse (condition.forget f) (thenBranch.forget f) (elseBranch.map (Stmt.forget f)) := by
  cases elseBranch <;> simp [Stmt.forget]

@[simp] theorem Stmt.forget_return (keyword : Token) (value : Option Expr) :
    (Stmt.return keyword value).forget f = .return (f keyword) (value.map (Expr.forget f)) := by
  cases value <;> simp [Stmt.forget]

@[simp] theorem Stmt.forget_class (name : Token) (superclass : Option Expr) (ms : List Method) :
    (Stmt.class name superclass ms).forget f =
      .class (f name) (superclass.map (Expr.forget f)) (ms.map (Method.forget f)) := by
  cases superclass <;> simp [Stmt.forget]

variable (g : Token → Token)

mutual

theorem Expr.forget_forget : ∀ e : Expr, (e.forget f).forget g = e.forget (g ∘ f)
  | .literal _ | .variable _ _ | .this _ _ | .super _ _ _ => by simp [Expr.forget]
  | .grouping e => by simp [Expr.forget, e.forget_forget]
  | .unary _ e => by simp [Expr.forget, e.forget_forget]
  | .binary e₁ _ e₂ => by simp [Expr.forget, e₁.forget_forget, e₂.forget_forget]
  | .logical e₁ _ e₂ => by simp [Expr.forget, e₁.forget_forget, e₂.forget_forget]
  | .assign _ _ e => by simp [Expr.forget, e.forget_forget]
  | .call e _ es => by
    have := forgetAll_forgetAll es
    simp_all [Expr.forget, e.forget_forget]
  | .get e _ => by simp [Expr.forget, e.forget_forget]
  | .set e₁ _ e₂ => by simp [Expr.forget, e₁.forget_forget, e₂.forget_forget]
  | .function h => by simp [Expr.forget, h.forget_forget]

theorem forgetAll_forgetAll : ∀ es : List Expr,
    forgetAll g (forgetAll f es) = forgetAll (g ∘ f) es
  | [] => by simp
  | e :: es => by
    have := forgetAll_forgetAll es
    simp_all [e.forget_forget]

theorem Function.forget_forget : ∀ h : Function, (h.forget f).forget g = h.forget (g ∘ f)
  | ⟨_, body⟩ => by
    have := forgetStatements_forgetStatements body
    simp_all [Function.forget]

theorem Method.forget_forget : ∀ m : Method, (m.forget f).forget g = m.forget (g ∘ f)
  | ⟨_, h⟩ => by simp [Method.forget, h.forget_forget]

theorem Stmt.forget_forget : ∀ s : Stmt, (s.forget f).forget g = s.forget (g ∘ f)
  | .expression e => by simp [Stmt.forget, e.forget_forget]
  | .print e => by simp [Stmt.forget, e.forget_forget]
  | .var _ none | .break _ | .return _ none => by simp [Stmt.forget]
  | .var _ (some e) => by simp [e.forget_forget]
  | .block ss => by
    have := forgetStatements_forgetStatements ss
    simp_all [Stmt.forget]
  | .ifElse e s none => by simp [e.forget_forget, s.forget_forget]
  | .ifElse e s (some s') => by simp [e.forget_forget, s.forget_forget, s'.forget_forget]
  | .while e s => by simp [Stmt.forget, e.forget_forget, s.forget_forget]
  | .return _ (some e) => by simp [e.forget_forget]
  | .function m => by simp [Stmt.forget, m.forget_forget]
  | .class _ none ms => by
    have := forgetMethods_forgetMethods ms
    simp_all
  | .class _ (some e) ms => by
    have := forgetMethods_forgetMethods ms
    simp_all [e.forget_forget]

theorem forgetStatements_forgetStatements : ∀ ss : List Stmt,
    forgetStatements g (forgetStatements f ss) = forgetStatements (g ∘ f) ss
  | [] => by simp
  | s :: ss => by
    have := forgetStatements_forgetStatements ss
    simp_all [s.forget_forget]

theorem forgetMethods_forgetMethods : ∀ ms : List Method,
    forgetMethods g (forgetMethods f ms) = forgetMethods (g ∘ f) ms
  | [] => by simp
  | m :: ms => by
    have := forgetMethods_forgetMethods ms
    simp_all [m.forget_forget]

end

/-- Trees that are equal up to identities are equal up to more. -/
theorem Expr.forget_eq_of_forget_id {e e' : Expr} (h : e.forget id = e'.forget id) :
    e.forget f = e'.forget f := by
  have hf := congrArg (Expr.forget f) h
  rwa [Expr.forget_forget, Expr.forget_forget] at hf

end Lox
