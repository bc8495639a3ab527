import Lox.Proofs.Tree.Forget
import Lox.Proofs.Tree.Twin

namespace Lox

/-- Any two nodes correspond. -/
def Link.loose (K : Link) : Link := { K with node := fun _ _ => True }

variable {K : Link}

theorem Token.Twin.loose {t t' : Token} (h : t.Twin K t') : t.Twin K.loose t' :=
  h.imp fun _ _ => id

mutual

theorem Expr.Twin.forgotten {e e' : Expr} : e.Twin K e' → e.Twin K.loose (e'.forget id)
  | .literal value => .literal value
  | .grouping h => .grouping h.forgotten
  | .unary ht h => .unary ht.loose h.forgotten
  | .binary h₁ ht h₂ => .binary h₁.forgotten ht.loose h₂.forgotten
  | .logical h₁ ht h₂ => .logical h₁.forgotten ht.loose h₂.forgotten
  | .variable _ ht => .variable trivial ht.loose
  | .assign _ ht h => .assign trivial ht.loose h.forgotten
  | .call h ht hs => .call h.forgotten ht.loose hs.forgotten
  | .get h ht => .get h.forgotten ht.loose
  | .set h₁ ht h₂ => .set h₁.forgotten ht.loose h₂.forgotten
  | .this _ ht => .this trivial ht.loose
  | .super _ ht hu => .super trivial ht.loose hu.loose
  | .function h => .function h.forgotten
termination_by structural h => h

theorem TwinAll.forgotten {es es' : List Expr} : TwinAll K es es' →
    TwinAll K.loose es (forgetAll id es')
  | .nil => .nil
  | .cons h hs => .cons h.forgotten hs.forgotten
termination_by structural h => h

theorem Function.Twin.forgotten {f f' : Function} : f.Twin K f' → f.Twin K.loose (f'.forget id)
  | .mk hparams hbody => by
    rw [Function.forget, List.map_id]
    exact .mk (hparams.imp fun _ _ ht => ht.loose) hbody.forgotten
termination_by structural h => h

theorem Method.Twin.forgotten {m m' : Method} : m.Twin K m' → m.Twin K.loose (m'.forget id)
  | .mk ht h => .mk ht.loose h.forgotten
termination_by structural h => h

theorem Stmt.Twin.forgotten {s s' : Stmt} : s.Twin K s' → s.Twin K.loose (s'.forget id)
  | .expression h => .expression h.forgotten
  | .print h => .print h.forgotten
  | .var ht => .var ht.loose
  | .initialized ht h => .initialized ht.loose h.forgotten
  | .block hs => .block hs.forgotten
  | .if h₁ h₂ => .if h₁.forgotten h₂.forgotten
  | .ifElse h₁ h₂ h₃ => .ifElse h₁.forgotten h₂.forgotten h₃.forgotten
  | .while h₁ h₂ => .while h₁.forgotten h₂.forgotten
  | .break ht => .break ht.loose
  | .return ht => .return ht.loose
  | .returned ht h => .returned ht.loose h.forgotten
  | .function h => .function h.forgotten
  | .class ht hms => .class ht.loose hms.forgotten
  | .subclass ht h hms => .subclass ht.loose h.forgotten hms.forgotten
termination_by structural h => h

theorem TwinStatements.forgotten {ss ss' : List Stmt} : TwinStatements K ss ss' →
    TwinStatements K.loose ss (forgetStatements id ss')
  | .nil => .nil
  | .cons h hs => .cons h.forgotten hs.forgotten
termination_by structural h => h

theorem TwinMethods.forgotten {ms ms' : List Method} : TwinMethods K ms ms' →
    TwinMethods K.loose ms (forgetMethods id ms')
  | .nil => .nil
  | .cons h hs => .cons h.forgotten hs.forgotten
termination_by structural h => h

end

mutual

theorem Expr.twin_of_forget : ∀ (e' : Expr) {e : Expr}, e.Twin K.loose (e'.forget id) →
    e.Twin K.loose e'
  | .literal _, _, .literal value => .literal value
  | .grouping e', _, .grouping h => .grouping (e'.twin_of_forget h)
  | .unary _ e', _, .unary ht h => .unary ht (e'.twin_of_forget h)
  | .binary e₁' _ e₂', _, .binary h₁ ht h₂ =>
    .binary (e₁'.twin_of_forget h₁) ht (e₂'.twin_of_forget h₂)
  | .logical e₁' _ e₂', _, .logical h₁ ht h₂ =>
    .logical (e₁'.twin_of_forget h₁) ht (e₂'.twin_of_forget h₂)
  | .variable _ _, _, .variable _ ht => .variable trivial ht
  | .assign _ _ e', _, .assign _ ht h => .assign trivial ht (e'.twin_of_forget h)
  | .call e' _ es', _, .call h ht hs => .call (e'.twin_of_forget h) ht (twinAll_of_forget es' hs)
  | .get e' _, _, .get h ht => .get (e'.twin_of_forget h) ht
  | .set e₁' _ e₂', _, .set h₁ ht h₂ => .set (e₁'.twin_of_forget h₁) ht (e₂'.twin_of_forget h₂)
  | .this _ _, _, .this _ ht => .this trivial ht
  | .super _ _ _, _, .super _ ht hu => .super trivial ht hu
  | .function f', _, .function h => .function (f'.twin_of_forget h)

theorem twinAll_of_forget : ∀ (es' : List Expr) {es : List Expr},
    TwinAll K.loose es (forgetAll id es') → TwinAll K.loose es es'
  | [], _, .nil => .nil
  | e' :: es', _, .cons h hs => .cons (e'.twin_of_forget h) (twinAll_of_forget es' hs)

theorem Function.twin_of_forget : ∀ (f' : Function) {f : Function},
    f.Twin K.loose (f'.forget id) → f.Twin K.loose f'
  | ⟨params', body'⟩, _, .mk hparams hbody =>
    .mk (List.map_id params' ▸ hparams) (twinStatements_of_forget body' hbody)

theorem Method.twin_of_forget : ∀ (m' : Method) {m : Method}, m.Twin K.loose (m'.forget id) →
    m.Twin K.loose m'
  | ⟨_, f'⟩, _, .mk ht h => .mk ht (f'.twin_of_forget h)

theorem Stmt.twin_of_forget : ∀ (s' : Stmt) {s : Stmt}, s.Twin K.loose (s'.forget id) →
    s.Twin K.loose s'
  | .expression e', _, .expression h => .expression (e'.twin_of_forget h)
  | .print e', _, .print h => .print (e'.twin_of_forget h)
  | .var _ none, _, .var ht => .var ht
  | .var _ (some e'), _, .initialized ht h => .initialized ht (e'.twin_of_forget h)
  | .block ss', _, .block hs => .block (twinStatements_of_forget ss' hs)
  | .ifElse e' s' none, _, .if h₁ h₂ => .if (e'.twin_of_forget h₁) (s'.twin_of_forget h₂)
  | .ifElse e' s₁' (some s₂'), _, .ifElse h₁ h₂ h₃ =>
    .ifElse (e'.twin_of_forget h₁) (s₁'.twin_of_forget h₂) (s₂'.twin_of_forget h₃)
  | .while e' s', _, .while h₁ h₂ => .while (e'.twin_of_forget h₁) (s'.twin_of_forget h₂)
  | .break _, _, .break ht => .break ht
  | .return _ none, _, .return ht => .return ht
  | .return _ (some e'), _, .returned ht h => .returned ht (e'.twin_of_forget h)
  | .function m', _, .function h => .function (m'.twin_of_forget h)
  | .class _ none ms', _, .class ht hms => .class ht (twinMethods_of_forget ms' hms)
  | .class _ (some e') ms', _, .subclass ht h hms =>
    .subclass ht (e'.twin_of_forget h) (twinMethods_of_forget ms' hms)

theorem twinStatements_of_forget : ∀ (ss' : List Stmt) {ss : List Stmt},
    TwinStatements K.loose ss (forgetStatements id ss') → TwinStatements K.loose ss ss'
  | [], _, .nil => .nil
  | s' :: ss', _, .cons h hs => .cons (s'.twin_of_forget h) (twinStatements_of_forget ss' hs)

theorem twinMethods_of_forget : ∀ (ms' : List Method) {ms : List Method},
    TwinMethods K.loose ms (forgetMethods id ms') → TwinMethods K.loose ms ms'
  | [], _, .nil => .nil
  | m' :: ms', _, .cons h hs => .cons (m'.twin_of_forget h) (twinMethods_of_forget ms' hs)

end

theorem Expr.Twin.of_forget {e e' : Expr} (h : e.Twin K e') (e'' : Expr)
    (heq : e'.forget id = e''.forget id) : e.Twin K.loose e'' :=
  e''.twin_of_forget (heq ▸ h.forgotten)

theorem TwinStatements.of_forget {ss ss' : List Stmt} (h : TwinStatements K ss ss')
    (ss'' : List Stmt) (heq : forgetStatements id ss' = forgetStatements id ss'') :
    TwinStatements K.loose ss ss'' :=
  twinStatements_of_forget ss'' (heq ▸ h.forgotten)

end Lox
