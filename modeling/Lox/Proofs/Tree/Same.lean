import Lox.Proofs.Tree.Forget
import Lox.Proofs.Tree.Twin

namespace Lox

/-- Lines correspond to themselves. -/
def Link.ofNodes (node : Nat → Nat → Prop) : Link := ⟨node, Eq, rfl⟩

/-- Trees whose nodes may have any identities. -/
def Link.anyNodes : Link := .ofNodes fun _ _ => True

/-- Trees whose nodes have the same identities. -/
def Link.same : Link := .ofNodes Eq

variable {N : Nat → Nat → Prop}

theorem Token.twin_self (t : Token) : t.Twin (.ofNodes N) t := ⟨rfl, rfl, rfl⟩

theorem Token.Twin.eq {t t' : Token} (h : t.Twin (.ofNodes N) t') : t = t' := by
  obtain ⟨kind, lexeme, line⟩ := t
  obtain ⟨kind', lexeme', line'⟩ := t'
  obtain ⟨rfl, rfl, hline⟩ := h
  obtain rfl : line = line' := hline
  rfl

theorem Diagnostic.Twin.eq {d d' : Diagnostic} (h : d.Twin (.ofNodes N) d') : d = d' := by
  obtain ⟨line, fault⟩ := d
  obtain ⟨line', fault'⟩ := d'
  obtain ⟨hline, rfl⟩ := h
  obtain rfl : line = line' := hline
  rfl

theorem forall₂_twin_self (ts : List Token) : List.Forall₂ (Token.Twin (.ofNodes N)) ts ts :=
  List.forall₂_same.mpr fun t _ => t.twin_self

theorem eq_of_forall₂_twin {ts ts' : List Token}
    (h : List.Forall₂ (Token.Twin (.ofNodes N)) ts ts') : ts = ts' := by
  rw [← List.forall₂_eq_eq_eq]
  exact h.imp fun _ _ ht => ht.eq

theorem forall₂_eq {ds ds' : List Diagnostic}
    (h : List.Forall₂ (Diagnostic.Twin (.ofNodes N)) ds ds') : ds = ds' := by
  rw [← List.forall₂_eq_eq_eq]
  exact h.imp fun _ _ hd => hd.eq

mutual

theorem Expr.twin_self : (e : Expr) → e.Twin (.same) e
  | .literal value => .literal value
  | .grouping e => .grouping e.twin_self
  | .unary t e => .unary t.twin_self e.twin_self
  | .binary e₁ t e₂ => .binary e₁.twin_self t.twin_self e₂.twin_self
  | .logical e₁ t e₂ => .logical e₁.twin_self t.twin_self e₂.twin_self
  | .variable _ t => .variable rfl t.twin_self
  | .assign _ t e => .assign rfl t.twin_self e.twin_self
  | .call e t es => .call e.twin_self t.twin_self (twinAll_self es)
  | .get e t => .get e.twin_self t.twin_self
  | .set e₁ t e₂ => .set e₁.twin_self t.twin_self e₂.twin_self
  | .this _ t => .this rfl t.twin_self
  | .super _ t u => .super rfl t.twin_self u.twin_self
  | .function f => .function f.twin_self

theorem twinAll_self : (es : List Expr) → TwinAll (.same) es es
  | [] => .nil
  | e :: es => .cons e.twin_self (twinAll_self es)

theorem Function.twin_self : (f : Function) → f.Twin (.same) f
  | ⟨params, body⟩ => .mk (forall₂_twin_self params) (twinStatements_self body)

theorem Stmt.twin_self : (s : Stmt) → s.Twin (.same) s
  | .expression e => .expression (Expr.twin_self e)
  | .print e => .print e.twin_self
  | .var t none => .var t.twin_self
  | .var t (some e) => .initialized t.twin_self e.twin_self
  | .block ss => .block (twinStatements_self ss)
  | .ifElse e s none => .if e.twin_self s.twin_self
  | .ifElse e s (some s') => .ifElse e.twin_self s.twin_self s'.twin_self
  | .while e s => .while e.twin_self s.twin_self
  | .break t => .break t.twin_self
  | .return t none => .return t.twin_self
  | .return t (some e) => .returned t.twin_self e.twin_self
  | .function ⟨t, f⟩ => .function (.mk t.twin_self f.twin_self)
  | .class t none ms => .class t.twin_self (twinMethods_self ms)
  | .class t (some e) ms => .subclass t.twin_self e.twin_self (twinMethods_self ms)

theorem twinStatements_self : (ss : List Stmt) → TwinStatements (.same) ss ss
  | [] => .nil
  | s :: ss => .cons s.twin_self (twinStatements_self ss)

theorem twinMethods_self : (ms : List Method) → TwinMethods (.same) ms ms
  | [] => .nil
  | ⟨t, f⟩ :: ms => .cons (.mk t.twin_self f.twin_self) (twinMethods_self ms)

end

variable (g : Token → Token)

mutual

theorem Expr.Twin.forget_eq {e e' : Expr} : e.Twin (.ofNodes N) e' → e.forget g = e'.forget g
  | .literal _ => rfl
  | .grouping h => by rw [Expr.forget, h.forget_eq, Expr.forget]
  | .unary ht h => by rw [Expr.forget, ht.eq, h.forget_eq, Expr.forget]
  | .binary h₁ ht h₂ | .logical h₁ ht h₂ | .set h₁ ht h₂ => by
    rw [Expr.forget, h₁.forget_eq, ht.eq, h₂.forget_eq, Expr.forget]
  | .variable _ ht | .this _ ht => by rw [Expr.forget, ht.eq, Expr.forget]
  | .assign _ ht h => by rw [Expr.forget, ht.eq, h.forget_eq, Expr.forget]
  | .call h ht hs => by rw [Expr.forget, h.forget_eq, ht.eq, hs.forget_eq, Expr.forget]
  | .get h ht => by rw [Expr.forget, h.forget_eq, ht.eq, Expr.forget]
  | .super _ ht hu => by rw [Expr.forget, ht.eq, hu.eq, Expr.forget]
  | .function h => by rw [Expr.forget, h.forget_eq, Expr.forget]
termination_by structural h => h

theorem TwinAll.forget_eq {es es' : List Expr} : TwinAll (.ofNodes N) es es' →
    forgetAll g es = forgetAll g es'
  | .nil => rfl
  | .cons h hs => by rw [forgetAll, h.forget_eq, hs.forget_eq, forgetAll]
termination_by structural h => h

theorem Function.Twin.forget_eq {f f' : Function} : f.Twin (.ofNodes N) f' →
    f.forget g = f'.forget g
  | .mk hparams hbody => by
    rw [Function.forget, eq_of_forall₂_twin hparams, hbody.forget_eq, Function.forget]
termination_by structural h => h

theorem Method.Twin.forget_eq {m m' : Method} : m.Twin (.ofNodes N) m' →
    m.forget g = m'.forget g
  | .mk ht h => by rw [Method.forget, ht.eq, h.forget_eq, Method.forget]
termination_by structural h => h

theorem Stmt.Twin.forget_eq {s s' : Stmt} : s.Twin (.ofNodes N) s' → s.forget g = s'.forget g
  | .expression h | .print h => by rw [Stmt.forget, h.forget_eq, Stmt.forget]
  | .var ht | .break ht | .return ht => by rw [Stmt.forget, ht.eq, Stmt.forget]
  | .initialized ht h | .returned ht h => by rw [Stmt.forget, ht.eq, h.forget_eq, Stmt.forget]
  | .block hs => by rw [Stmt.forget, hs.forget_eq, Stmt.forget]
  | .if h hs | .while h hs => by rw [Stmt.forget, h.forget_eq, hs.forget_eq, Stmt.forget]
  | .ifElse h hs hs' => by
    rw [Stmt.forget, h.forget_eq, hs.forget_eq, hs'.forget_eq, Stmt.forget]
  | .function h => by rw [Stmt.forget, h.forget_eq, Stmt.forget]
  | .class ht hs => by rw [Stmt.forget, ht.eq, hs.forget_eq, Stmt.forget]
  | .subclass ht h hs => by rw [Stmt.forget, ht.eq, h.forget_eq, hs.forget_eq, Stmt.forget]
termination_by structural h => h

theorem TwinStatements.forget_eq {ss ss' : List Stmt} : TwinStatements (.ofNodes N) ss ss' →
    forgetStatements g ss = forgetStatements g ss'
  | .nil => rfl
  | .cons h hs => by rw [forgetStatements, h.forget_eq, hs.forget_eq, forgetStatements]
termination_by structural h => h

theorem TwinMethods.forget_eq {ms ms' : List Method} : TwinMethods (.ofNodes N) ms ms' →
    forgetMethods g ms = forgetMethods g ms'
  | .nil => rfl
  | .cons h hs => by rw [forgetMethods, h.forget_eq, hs.forget_eq, forgetMethods]
termination_by structural h => h

end

mutual

theorem Expr.Twin.eq {e e' : Expr} : e.Twin .same e' → e = e'
  | .literal _ => rfl
  | .grouping h => by rw [h.eq]
  | .unary ht h => by rw [ht.eq, h.eq]
  | .binary h₁ ht h₂ | .logical h₁ ht h₂ | .set h₁ ht h₂ => by rw [h₁.eq, ht.eq, h₂.eq]
  | .variable hi ht | .this hi ht => by rw [show _ = _ from hi, ht.eq]
  | .assign hi ht h => by rw [show _ = _ from hi, ht.eq, h.eq]
  | .call h ht hs => by rw [h.eq, ht.eq, hs.eq]
  | .get h ht => by rw [h.eq, ht.eq]
  | .super hi ht hu => by rw [show _ = _ from hi, ht.eq, hu.eq]
  | .function h => by rw [h.eq]
termination_by structural h => h

theorem TwinAll.eq {es es' : List Expr} : TwinAll .same es es' → es = es'
  | .nil => rfl
  | .cons h hs => by rw [h.eq, hs.eq]
termination_by structural h => h

theorem Function.Twin.eq {f f' : Function} : f.Twin .same f' → f = f'
  | .mk hparams hbody => by rw [eq_of_forall₂_twin hparams, hbody.eq]
termination_by structural h => h

theorem Method.Twin.eq {m m' : Method} : m.Twin .same m' → m = m'
  | .mk ht h => by rw [ht.eq, h.eq]
termination_by structural h => h

theorem Stmt.Twin.eq {s s' : Stmt} : s.Twin .same s' → s = s'
  | .expression h | .print h => by rw [h.eq]
  | .var ht | .break ht | .return ht => by rw [ht.eq]
  | .initialized ht h | .returned ht h => by rw [ht.eq, h.eq]
  | .block hs => by rw [hs.eq]
  | .if h hs | .while h hs => by rw [h.eq, hs.eq]
  | .ifElse h hs hs' => by rw [h.eq, hs.eq, hs'.eq]
  | .function h => by rw [h.eq]
  | .class ht hs => by rw [ht.eq, hs.eq]
  | .subclass ht h hs => by rw [ht.eq, h.eq, hs.eq]
termination_by structural h => h

theorem TwinStatements.eq {ss ss' : List Stmt} : TwinStatements .same ss ss' → ss = ss'
  | .nil => rfl
  | .cons h hs => by rw [h.eq, hs.eq]
termination_by structural h => h

theorem TwinMethods.eq {ms ms' : List Method} : TwinMethods .same ms ms' → ms = ms'
  | .nil => rfl
  | .cons h hs => by rw [h.eq, hs.eq]
termination_by structural h => h

end

end Lox
