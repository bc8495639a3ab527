import Lox.Scope.Resolver

namespace Lox

namespace Resolver

/-- The registers when the walk has come to `w` in the surroundings `c`. -/
def holding (lint : Lint) (c : Context) (w : Walk) : Resolver where
  lint := lint
  scopes := w.scopes
  inFunction := c.inFunction
  inClass := c.inClass
  addresses := (w.findings.toList.filterMap Finding.address?).toArray
  errors := (w.findings.toList.filterMap (Finding.error? lint)).toArray
  warnings := (w.findings.toList.filterMap (Finding.warning? lint)).toArray

variable {lint : Lint} {c : Context} (w : Walk)

theorem scopes_holding : (holding lint c w).scopes = w.scopes := rfl

theorem holding_top : holding lint .top ⟨[], #[]⟩ = new lint := rfl

theorem holding_misuse (line : Nat) (fault : ScopeFault) :
    (holding lint c w).misuse line fault = holding lint c (w.misuse line fault) := by
  simp [holding, misuse, Walk.misuse, Walk.find, Finding.address?, Finding.error?,
    Finding.warning?]

theorem holding_record (id : Nat) (a : Address) :
    (holding lint c w).record id a = holding lint c (w.find (.address id a)) := by
  simp [holding, record, Walk.find, Finding.address?, Finding.error?, Finding.warning?]

theorem holding_unread (d : Diagnostic) :
    (holding lint c w).unread d = holding lint c (w.find (.unread d)) := by
  cases lint <;>
    simp [holding, unread, Walk.find, Finding.address?, Finding.error?, Finding.warning?]

theorem holding_foldl_unread (ds : List Diagnostic) :
    ds.foldl unread (holding lint c w) =
      holding lint c (ds.foldl (fun w d => w.find (.unread d)) w) := by
  induction ds generalizing w with
  | nil => rfl
  | cons d ds ih => rw [List.foldl_cons, List.foldl_cons, holding_unread, ih]

/-- Where unread locals are allowed, reports of them leave no trace. -/
theorem foldl_unread_of_allow {r : Resolver} (h : r.lint = .allow) (ds : List Diagnostic) :
    ds.foldl unread r = r := by
  induction ds with
  | nil => rfl
  | cons d ds ih =>
    have hd : r.unread d = r := by simp [unread, h]
    rw [List.foldl_cons, hd, ih]

theorem holding_enter (s : Scope) : (holding lint c w).enter s = holding lint c (w.enter s) := rfl

theorem holding_leave : (holding lint c w).leave = holding lint c w.leave := by
  obtain ⟨scopes, findings⟩ := w
  cases scopes with
  | nil => rfl
  | cons s outer =>
    have hreports := @holding_foldl_unread lint c ⟨outer, findings⟩ s.unread
    have hleave : (holding lint c ⟨s :: outer, findings⟩).leave =
        if lint = .allow then holding lint c ⟨outer, findings⟩
        else s.unread.foldl unread (holding lint c ⟨outer, findings⟩) := rfl
    rw [hleave]
    split
    next hallow => exact (foldl_unread_of_allow hallow _).symm.trans hreports
    next => exact hreports

theorem holding_declare (name : Token) :
    (holding lint c w).declare name = holding lint c (w.declare name) := by
  obtain ⟨scopes, findings⟩ := w
  cases scopes with
  | nil => rfl
  | cons s outer =>
    simp only [declare, Walk.declare, scopes_holding]
    cases s.slot? name.lexeme with
    | none => rfl
    | some _ => exact holding_misuse _ _ _

theorem holding_define (name : Token) :
    (holding lint c w).define name = holding lint c (w.define name) := by
  obtain ⟨scopes, findings⟩ := w
  cases scopes <;> rfl

theorem holding_introduce (name : Token) :
    (holding lint c w).introduce name = holding lint c (w.introduce name) := by
  rw [introduce, holding_declare, holding_define, Walk.introduce]

theorem holding_foldl_introduce (names : List Token) :
    names.foldl introduce (holding lint c w) = holding lint c (names.foldl Walk.introduce w) := by
  induction names generalizing w with
  | nil => rfl
  | cons name names ih => rw [List.foldl_cons, List.foldl_cons, holding_introduce, ih]

theorem holding_isPending (name : Token) :
    (holding lint c w).isPending name = w.isPending name := rfl

theorem holding_read (id : Nat) (name : Token) :
    (holding lint c w).refer id name true = holding lint c (w.read id name) := by
  simp only [refer, Walk.read, scopes_holding]
  cases Scope.address? w.scopes name.lexeme with
  | none => rfl
  | some a => exact holding_record { w with scopes := Scope.useAt w.scopes a } id a

theorem holding_refer (id : Nat) (name : Token) :
    (holding lint c w).refer id name false = holding lint c (w.refer id name) := by
  simp only [refer, Walk.refer, scopes_holding]
  cases Scope.address? w.scopes name.lexeme with
  | none => rfl
  | some a => exact holding_record w id a

theorem holding_readVariable (id : Nat) (name : Token) :
    (holding lint c w).readVariable id name = holding lint c (w.readVariable id name) := by
  rw [readVariable, Walk.readVariable, holding_isPending]
  split
  · rw [holding_misuse, holding_read]
  · rw [holding_read]

theorem holding_assignVariable (id : Nat) (name : Token) :
    (holding lint c w).assignVariable id name = holding lint c (w.assignVariable id name) := by
  rw [assignVariable, Walk.assignVariable, holding_isPending]
  split
  · rw [holding_misuse, holding_refer]
  · rw [holding_refer]

theorem holding_readThis (id : Nat) (keyword : Token) :
    (holding lint c w).readThis id keyword = holding lint c (w.readThis c.inClass id keyword) := by
  obtain ⟨f, k⟩ := c
  cases k with
  | none => exact holding_misuse _ _ _
  | base | subclass => exact holding_read _ _ _

theorem holding_readSuper (id : Nat) (keyword : Token) :
    (holding lint c w).readSuper id keyword =
      holding lint c (w.readSuper c.inClass id keyword) := by
  obtain ⟨f, k⟩ := c
  cases k with
  | none | base => exact holding_misuse _ _ _
  | subclass => exact holding_read _ _ _

theorem holding_leaveFunction (keyword : Token) :
    (holding lint c w).leaveFunction keyword =
      holding lint c (w.leaveFunction c.inFunction keyword) := by
  rw [Walk.leaveFunction, apply_ite (holding lint c), ← holding_misuse]
  rfl

theorem holding_returnValue (keyword : Token) :
    (holding lint c w).returnValue keyword =
      holding lint c (w.returnValue c.inFunction keyword) := by
  rw [Walk.returnValue, apply_ite (holding lint c), ← holding_misuse]
  rfl

theorem holding_checkSuperclass (name : Token) (superclass : Expr) :
    (holding lint c w).checkSuperclass name superclass =
      holding lint c (w.checkSuperclass name superclass) := by
  rw [checkSuperclass, Walk.checkSuperclass]
  cases inheritsFrom name superclass with
  | none => rfl
  | some t => exact holding_misuse _ _ _

theorem holding_inFunction (kind : FunctionContext) :
    { holding lint c w with inFunction := kind } =
      holding lint { c with inFunction := kind } w := rfl

theorem holding_inClass (kind : ClassContext) :
    { holding lint c w with inClass := kind } = holding lint { c with inClass := kind } w := rfl

end Resolver

open Resolver

variable {lint : Lint}

mutual

theorem Expr.resolve_holding (c : Context) (w : Walk) :
    (e : Expr) → e.resolve (holding lint c w) = holding lint c (e.walk c w)
  | .literal _ => rfl
  | .grouping e => e.resolve_holding c w
  | .unary _ e => e.resolve_holding c w
  | .binary e₁ _ e₂ | .logical e₁ _ e₂ => by
    rw [Expr.resolve, e₁.resolve_holding c w, e₂.resolve_holding, Expr.walk]
  | .variable _ _ => holding_readVariable _ _ _
  | .assign id t e => by
    rw [Expr.resolve, e.resolve_holding c w, holding_assignVariable, Expr.walk]
  | .call e _ es => by
    rw [Expr.resolve, e.resolve_holding c w, resolveArguments_holding c _ es, Expr.walk]
  | .get e _ => e.resolve_holding c w
  | .set e₁ _ e₂ => by
    rw [Expr.resolve, e₂.resolve_holding c w, e₁.resolve_holding, Expr.walk]
  | .this _ _ => holding_readThis _ _ _
  | .super _ _ _ => holding_readSuper _ _ _
  | .function f => f.resolve_holding c w _

theorem resolveArguments_holding (c : Context) (w : Walk) : (es : List Expr) →
    resolveArguments (holding lint c w) es = holding lint c (walkArguments c w es)
  | [] => rfl
  | e :: es => by
    rw [resolveArguments, e.resolve_holding c w, resolveArguments_holding c _ es, walkArguments]

theorem Function.resolve_holding (c : Context) (w : Walk) (kind : FunctionContext) :
    (f : Function) → f.resolve kind (holding lint c w) =
      holding lint c (f.walk { c with inFunction := kind } w)
  | ⟨params, body⟩ => by
    simp only [Function.resolve, holding_inFunction, holding_enter, holding_foldl_introduce]
    rw [resolveStatements_holding _ _ body, holding_leave]
    rfl

theorem Stmt.resolve_holding (c : Context) (w : Walk) :
    (s : Stmt) → s.resolve (holding lint c w) = holding lint c (s.walk c w)
  | .expression e | .print e => e.resolve_holding c w
  | .var _ none => holding_introduce _ _
  | .var _ (some e) => by
    rw [Stmt.resolve, holding_declare, e.resolve_holding, holding_define, Stmt.walk]
  | .block ss => by
    rw [Stmt.resolve, holding_enter, resolveStatements_holding c _ ss, holding_leave, Stmt.walk]
  | .ifElse e s none => by
    rw [Stmt.resolve, e.resolve_holding c w, s.resolve_holding, Stmt.walk]
  | .ifElse e s (some s') => by
    rw [Stmt.resolve, e.resolve_holding c w, s.resolve_holding, s'.resolve_holding, Stmt.walk]
  | .while e s => by
    rw [Stmt.resolve, e.resolve_holding c w, s.resolve_holding, Stmt.walk]
  | .break _ => rfl
  | .return _ none => holding_leaveFunction _ _
  | .return _ (some e) => by
    rw [Stmt.resolve, holding_leaveFunction, holding_returnValue, e.resolve_holding, Stmt.walk]
  | .function ⟨_, f⟩ => by
    rw [Stmt.resolve, holding_introduce, f.resolve_holding, Stmt.walk]
  | .class _ none ms => by
    simp only [Stmt.resolve, holding_inClass, holding_introduce, holding_enter]
    rw [resolveMethods_holding _ _ ms, holding_leave]
    rfl
  | .class _ (some e) ms => by
    simp only [Stmt.resolve, holding_inClass, holding_introduce, holding_checkSuperclass]
    rw [e.resolve_holding, holding_enter, holding_enter, resolveMethods_holding _ _ ms,
      holding_leave, holding_leave]
    rfl

theorem resolveStatements_holding (c : Context) (w : Walk) : (ss : List Stmt) →
    resolveStatements (holding lint c w) ss = holding lint c (walkStatements c w ss)
  | [] => rfl
  | s :: ss => by
    rw [resolveStatements, s.resolve_holding c w, resolveStatements_holding c _ ss, walkStatements]

theorem resolveMethods_holding (c : Context) (w : Walk) : (ms : List Method) →
    resolveMethods (holding lint c w) ms = holding lint c (walkMethods c w ms)
  | [] => rfl
  | ⟨_, f⟩ :: ms => by
    rw [resolveMethods, f.resolve_holding c w, resolveMethods_holding c _ ms, walkMethods]

end

theorem Resolver.drain_holding (c : Context) (w : Walk) :
    (holding lint c w).drain =
      (verdict lint w.findings.toList, holding lint c { w with findings := #[] }) := by
  refine Prod.ext ?_ rfl
  unfold drain verdict holding
  generalize w.findings.toList.filterMap (Finding.error? lint) = errors
  cases errors <;> simp

/-- A resolver that has nothing open passes the verdict that its walk comes to. -/
theorem Resolver.resolve_new (lint : Lint) (program : List Stmt) :
    (Resolver.new lint).resolve program =
      (verdict lint (walkStatements .top ⟨[], #[]⟩ program).findings.toList,
        holding lint .top ⟨(walkStatements .top ⟨[], #[]⟩ program).scopes, #[]⟩) := by
  rw [Resolver.resolve, ← holding_top, resolveStatements_holding, drain_holding]

theorem resolve_eq_verdict (lint : Lint) (program : List Stmt) :
    resolve lint program =
      verdict lint (walkStatements .top ⟨[], #[]⟩ program).findings.toList :=
  congrArg Prod.fst (Resolver.resolve_new lint program)

end Lox
