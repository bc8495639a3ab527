import Lox.Proofs.Scope.Place

namespace Lox

namespace Lexical

/-- `L'` is a point of the innermost scope of `L`, or further in. -/
def Around (L L' : Lexical) : Prop :=
  ∃ inner outer, L' = inner ++ outer ∧ outer.tail = L.tail ∧
    outer.map Place.site = L.map Place.site

variable {L L' L'' : Lexical}

theorem Around.refl (L : Lexical) : L.Around L := ⟨[], L, rfl, rfl, rfl⟩

/-- What is around a point in a scope ends with that scope and what is around it. -/
theorem Around.split {site : Site} {count : Nat} (h : Around (site.enter count L) L') :
    ∃ inner p, L' = inner ++ p :: L ∧ p.site = site := by
  obtain ⟨inner, outer, rfl, htail, hsites⟩ := h
  cases outer with
  | nil => simp [Site.enter] at hsites
  | cons p outer =>
    obtain rfl : outer = L := htail
    exact ⟨inner, p, rfl, (List.cons.inj hsites).1⟩

theorem Around.of_enter {site : Site} {count : Nat} (h : Around (site.enter count L) L') :
    L.Around L' := by
  obtain ⟨inner, p, rfl, -⟩ := h.split
  exact ⟨inner ++ [p], L, by simp, rfl, rfl⟩

theorem Around.of_declare (h : L.declare.Around L') : L.Around L' := by
  obtain ⟨inner, outer, rfl, htail, hsites⟩ := h
  refine ⟨inner, outer, rfl, ?_, ?_⟩
  · cases L <;> exact htail
  · cases L <;> exact hsites

theorem Around.of_await {name : Token} {value : Expr} (h : (L.await name value).Around L') :
    L.Around L' := by
  obtain ⟨inner, outer, rfl, htail, hsites⟩ := h
  refine ⟨inner, outer, rfl, ?_, ?_⟩
  · cases L <;> exact htail
  · cases L <;> exact hsites

theorem Around.of_after {s : Stmt} (h : (L.after s).Around L') : L.Around L' := by
  unfold after at h
  split at h
  · exact h.of_declare
  · exact h

end Lexical

mutual

theorem Expr.around_nodes (L : Lexical) : (e : Expr) → ∀ node ∈ e.nodes L, L.Around node.context
  | .literal _ => by simp [Expr.nodes]
  | .grouping e => e.around_nodes L
  | .unary _ e => e.around_nodes L
  | .binary e₁ _ e₂ => List.forall_mem_append.mpr ⟨e₁.around_nodes L, e₂.around_nodes L⟩
  | .logical e₁ _ e₂ => List.forall_mem_append.mpr ⟨e₁.around_nodes L, e₂.around_nodes L⟩
  | .variable _ _ => List.forall_mem_singleton.mpr (.refl L)
  | .assign _ _ e =>
    List.forall_mem_append.mpr ⟨e.around_nodes L, List.forall_mem_singleton.mpr (.refl L)⟩
  | .call e _ es => List.forall_mem_append.mpr ⟨e.around_nodes L, around_nodesOfAll L es⟩
  | .get e _ => e.around_nodes L
  | .set e₁ _ e₂ => List.forall_mem_append.mpr ⟨e₂.around_nodes L, e₁.around_nodes L⟩
  | .this _ _ => List.forall_mem_singleton.mpr (.refl L)
  | .super _ _ _ => List.forall_mem_singleton.mpr (.refl L)
  | .function f => f.around_nodes L

theorem around_nodesOfAll (L : Lexical) :
    (es : List Expr) → ∀ node ∈ nodesOfAll L es, L.Around node.context
  | [] => by simp [nodesOfAll]
  | e :: es => List.forall_mem_append.mpr ⟨e.around_nodes L, around_nodesOfAll L es⟩

theorem Function.around_nodes (L : Lexical) :
    (f : Function) → ∀ node ∈ f.nodes L, L.Around node.context
  | ⟨_, body⟩ => fun node hnode => (around_nodesOfStatements _ body node hnode).of_enter

theorem Stmt.around_nodes (L : Lexical) : (s : Stmt) → ∀ node ∈ s.nodes L, L.Around node.context
  | .expression e => e.around_nodes L
  | .print e => e.around_nodes L
  | .var _ none => by simp [Stmt.nodes]
  | .var _ (some e) => fun node hnode => (e.around_nodes _ node hnode).of_await
  | .block ss => fun node hnode => (around_nodesOfStatements _ ss node hnode).of_enter
  | .ifElse e s none => List.forall_mem_append.mpr ⟨e.around_nodes L, s.around_nodes L⟩
  | .ifElse e s (some s') => List.forall_mem_append.mpr
    ⟨e.around_nodes L, List.forall_mem_append.mpr ⟨s.around_nodes L, s'.around_nodes L⟩⟩
  | .while e s => List.forall_mem_append.mpr ⟨e.around_nodes L, s.around_nodes L⟩
  | .break _ => by simp [Stmt.nodes]
  | .return _ none => by simp [Stmt.nodes]
  | .return _ (some e) => e.around_nodes L
  | .function ⟨_, f⟩ => fun node hnode => (f.around_nodes _ node hnode).of_declare
  | .class _ none ms => fun node hnode => (around_nodesOfMethods _ ms node hnode).of_declare
  | .class _ (some e) ms => List.forall_mem_append.mpr
    ⟨e.around_nodes L, fun node hnode => (around_nodesOfMethods _ ms node hnode).of_enter.of_declare⟩

theorem around_nodesOfStatements (L : Lexical) :
    (ss : List Stmt) → ∀ node ∈ nodesOfStatements L ss, L.Around node.context
  | [] => by simp [nodesOfStatements]
  | s :: ss => List.forall_mem_append.mpr
    ⟨s.around_nodes L, fun node hnode => (around_nodesOfStatements _ ss node hnode).of_after⟩

theorem around_nodesOfMethods (L : Lexical) :
    (ms : List Method) → ∀ node ∈ nodesOfMethods L ms, L.Around node.context
  | [] => by simp [nodesOfMethods]
  | ⟨_, f⟩ :: ms => List.forall_mem_append.mpr
    ⟨fun node hnode => (f.around_nodes _ node hnode).of_enter, around_nodesOfMethods L ms⟩

end

/-- A place right inside `L` that is in a function, or `L` itself. -/
def Lexical.Enclosed (L L' : Lexical) : Prop :=
  L' = L ∨ ∃ inner p f, p.site = .function f ∧ L' = inner ++ p :: L

theorem Function.enclosed_nodes (L : Lexical) :
    (f : Function) → ∀ node ∈ f.nodes L, L.Enclosed node.context
  | ⟨params, body⟩ => fun node hnode => by
    obtain ⟨inner, outer, hcontext, htail, hsites⟩ := around_nodesOfStatements _ body node hnode
    cases outer with
    | nil => simp [Site.enter] at hsites
    | cons p outer =>
      obtain rfl : outer = L := htail
      exact .inr ⟨inner, p, _, (List.cons.inj hsites).1, hcontext⟩

mutual

/-- In an expression, only functions are scopes of their own. -/
theorem Expr.enclosed_nodes (L : Lexical) :
    (e : Expr) → ∀ node ∈ e.nodes L, L.Enclosed node.context
  | .literal _ => by simp [Expr.nodes]
  | .grouping e => e.enclosed_nodes L
  | .unary _ e => e.enclosed_nodes L
  | .binary e₁ _ e₂ => List.forall_mem_append.mpr ⟨e₁.enclosed_nodes L, e₂.enclosed_nodes L⟩
  | .logical e₁ _ e₂ => List.forall_mem_append.mpr ⟨e₁.enclosed_nodes L, e₂.enclosed_nodes L⟩
  | .variable _ _ => List.forall_mem_singleton.mpr (.inl rfl)
  | .assign _ _ e =>
    List.forall_mem_append.mpr ⟨e.enclosed_nodes L, List.forall_mem_singleton.mpr (.inl rfl)⟩
  | .call e _ es => List.forall_mem_append.mpr ⟨e.enclosed_nodes L, enclosed_nodesOfAll L es⟩
  | .get e _ => e.enclosed_nodes L
  | .set e₁ _ e₂ => List.forall_mem_append.mpr ⟨e₂.enclosed_nodes L, e₁.enclosed_nodes L⟩
  | .this _ _ => List.forall_mem_singleton.mpr (.inl rfl)
  | .super _ _ _ => List.forall_mem_singleton.mpr (.inl rfl)
  | .function f => f.enclosed_nodes L

theorem enclosed_nodesOfAll (L : Lexical) :
    (es : List Expr) → ∀ node ∈ nodesOfAll L es, L.Enclosed node.context
  | [] => by simp [nodesOfAll]
  | e :: es => List.forall_mem_append.mpr ⟨e.enclosed_nodes L, enclosed_nodesOfAll L es⟩

end

end Lox
