import Lox.Proofs.Tree.Identity
import Lox.Proofs.Tree.Same

namespace Lox

/-- Something with the identities `ids` is like this, and has fresh ones from `n` on. -/
def Renews {α : Type} (R : α → Prop) (ids : α → List Nat) (n : Nat) : Prop :=
  ∃ a b, R a ∧ n ≤ b ∧ Fresh n b (ids a)

namespace Renews

variable {α β γ : Type} {R : α → Prop} {ids : α → List Nat} {n : Nat}

theorem of_nil {a : α} (h : R a) (hids : ids a = []) : Renews R ids n :=
  ⟨a, n, h, Nat.le_refl n, by rw [hids]; exact .nil⟩

theorem one {a : α} (h : R a) (hids : ids a = [n]) : Renews R ids n :=
  ⟨a, n + 1, h, Nat.le_succ n, by rw [hids]; exact .one n⟩

theorem map {R' : β → Prop} {ids' : β → List Nat} {f : α → β} (h : Renews R ids n)
    (hf : ∀ a, R a → R' (f a)) (hids : ∀ a, ids' (f a) = ids a) : Renews R' ids' n := by
  obtain ⟨a, b, ha, hn, hfresh⟩ := h
  exact ⟨f a, b, hf a ha, hn, by rw [hids]; exact hfresh⟩

theorem map₂ {R₂ : β → Prop} {ids₂ : β → List Nat} {R' : γ → Prop} {ids' : γ → List Nat}
    {f : α → β → γ} (h : Renews R ids n) (h₂ : ∀ n, Renews R₂ ids₂ n)
    (hf : ∀ a b, R a → R₂ b → R' (f a b)) (hids : ∀ a b, ids' (f a b) = ids a ++ ids₂ b) :
    Renews R' ids' n := by
  obtain ⟨a, b, ha, hn, hfresh⟩ := h
  obtain ⟨a₂, b₂, ha₂, hb, hfresh₂⟩ := h₂ b
  refine ⟨f a a₂, b₂, hf a a₂ ha ha₂, Nat.le_trans hn hb, ?_⟩
  rw [hids]
  exact hfresh.append hfresh₂ hn hb

end Renews

mutual

theorem Expr.renews (n : Nat) : (e : Expr) → Renews (e.Twin .anyNodes) Expr.ids n
  | .literal value => .of_nil (.literal value) rfl
  | .grouping e => (e.renews n).map (fun _ => .grouping) fun _ => rfl
  | .unary t e => (e.renews n).map (fun _ => .unary t.twin_self) fun _ => rfl
  | .binary e₁ t e₂ => (e₁.renews n).map₂ (fun n => e₂.renews n)
      (fun _ _ h₁ h₂ => .binary h₁ t.twin_self h₂) fun _ _ => rfl
  | .logical e₁ t e₂ => (e₁.renews n).map₂ (fun n => e₂.renews n)
      (fun _ _ h₁ h₂ => .logical h₁ t.twin_self h₂) fun _ _ => rfl
  | .variable _ t => .one (.variable trivial t.twin_self) rfl
  | .assign _ t e => by
    obtain ⟨e', b, h, hn, hfresh⟩ := e.renews n
    exact ⟨.assign b t e', b + 1, .assign trivial t.twin_self h, Nat.le_trans hn (Nat.le_succ b),
      hfresh.append (.one b) hn (Nat.le_succ b)⟩
  | .call e t es => (e.renews n).map₂ (fun n => renews_all n es)
      (fun _ _ h hs => .call h t.twin_self hs) fun _ _ => rfl
  | .get e t => (e.renews n).map (fun _ h => .get h t.twin_self) fun _ => rfl
  | .set e₁ t e₂ => by
    obtain ⟨e₂', b, h₂, hn, hfresh₂⟩ := e₂.renews n
    obtain ⟨e₁', b', h₁, hb, hfresh₁⟩ := e₁.renews b
    exact ⟨.set e₁' t e₂', b', .set h₁ t.twin_self h₂, Nat.le_trans hn hb,
      hfresh₂.append hfresh₁ hn hb⟩
  | .this _ t => .one (.this trivial t.twin_self) rfl
  | .super _ t u => .one (.super trivial t.twin_self u.twin_self) rfl
  | .function f => (f.renews n).map (fun _ => .function) fun _ => rfl

theorem renews_all (n : Nat) : (es : List Expr) → Renews (TwinAll .anyNodes es) idsOfAll n
  | [] => .of_nil .nil rfl
  | e :: es => (e.renews n).map₂ (fun n => renews_all n es) (fun _ _ => .cons) fun _ _ => rfl

theorem Function.renews (n : Nat) : (f : Function) → Renews (f.Twin .anyNodes) Function.ids n
  | ⟨params, body⟩ => (renews_statements n body).map (f := fun body => ⟨params, body⟩)
      (fun _ => .mk (forall₂_twin_self params)) fun _ => rfl

theorem Stmt.renews (n : Nat) : (s : Stmt) → Renews (s.Twin .anyNodes) Stmt.ids n
  | .expression e => (e.renews n).map (fun _ => .expression) fun _ => rfl
  | .print e => (e.renews n).map (fun _ => .print) fun _ => rfl
  | .var t none => .of_nil (.var t.twin_self) rfl
  | .var t (some e) => (e.renews n).map (fun _ => .initialized t.twin_self) fun _ => rfl
  | .block ss => (renews_statements n ss).map (fun _ => .block) fun _ => rfl
  | .ifElse e s none => (e.renews n).map₂ (fun n => s.renews n) (fun _ _ => .if) fun _ _ => rfl
  | .ifElse e s (some s') => by
    obtain ⟨e₁, b, h, hn, hfresh⟩ := e.renews n
    obtain ⟨s₁, b₁, h₁, hb, hfresh₁⟩ := s.renews b
    obtain ⟨s₂, b₂, h₂, hb₁, hfresh₂⟩ := s'.renews b₁
    exact ⟨.ifElse e₁ s₁ (some s₂), b₂, .ifElse h h₁ h₂, Nat.le_trans hn (Nat.le_trans hb hb₁),
      hfresh.append (hfresh₁.append hfresh₂ hb hb₁) hn (Nat.le_trans hb hb₁)⟩
  | .while e s => (e.renews n).map₂ (fun n => s.renews n) (fun _ _ => .while) fun _ _ => rfl
  | .break t => .of_nil (.break t.twin_self) rfl
  | .return t none => .of_nil (.return t.twin_self) rfl
  | .return t (some e) => (e.renews n).map (fun _ => .returned t.twin_self) fun _ => rfl
  | .function ⟨t, f⟩ => (f.renews n).map (f := fun f => .function ⟨t, f⟩)
      (fun _ h => .function (.mk t.twin_self h)) fun _ => rfl
  | .class t none ms => (renews_methods n ms).map (fun _ => .class t.twin_self) fun _ => rfl
  | .class t (some e) ms => (e.renews n).map₂ (fun n => renews_methods n ms)
      (fun _ _ => .subclass t.twin_self) fun _ _ => rfl

theorem renews_statements (n : Nat) : (ss : List Stmt) →
    Renews (TwinStatements .anyNodes ss) idsOfStatements n
  | [] => .of_nil .nil rfl
  | s :: ss => (s.renews n).map₂ (fun n => renews_statements n ss) (fun _ _ => .cons) fun _ _ => rfl

theorem renews_methods (n : Nat) : (ms : List Method) →
    Renews (TwinMethods .anyNodes ms) idsOfMethods n
  | [] => .of_nil .nil rfl
  | ⟨t, f⟩ :: ms => (f.renews n).map₂ (f := fun f ms => ⟨t, f⟩ :: ms) (fun n => renews_methods n ms)
      (fun _ _ hf hms => .cons (.mk t.twin_self hf) hms) fun _ _ => rfl

end

end Lox
