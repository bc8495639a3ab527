import Lox.Proofs.Scope.Proper
import Lox.Proofs.Scope.Walk

namespace Lox

/-- A scope that is not one of the text but made for `this` or `super`. -/
def Site.Implicit : Site → Prop
  | this _ | super _ => True
  | block _ | function _ => False

namespace Lexical

/-- The innermost method around is `f`, and its class stands in the places `outer`. -/
def InMethod (L : Lexical) (f : Function) (outer : Lexical) : Prop :=
  ∃ inner, L = inner ++ (Site.this f).enter 1 outer ∧ ∀ p ∈ inner, ¬p.site.Implicit

/-- The class around is of this kind. -/
def Within (L : Lexical) : ClassContext → Prop
  | .none => True
  | .base => ∃ f outer, L.InMethod f outer
  | .subclass => ∃ f ms outer,
    L.InMethod f ((Site.super ms).enter 1 outer) ∧ f ∈ ms.map Method.function

/-- The class around is of this kind, and the innermost scope is one of the text. -/
def Inside (L : Lexical) (c : ClassContext) : Prop :=
  c = .none ∨ ∃ p outer, L = p :: outer ∧ ¬p.site.Implicit ∧ Within outer c

variable {L L' : Lexical} {c : ClassContext}

theorem InMethod.enter {f : Function} {outer : Lexical} (h : L.InMethod f outer) {p : Place}
    (hp : ¬p.site.Implicit) : InMethod (p :: L) f outer := by
  obtain ⟨inner, rfl, hinner⟩ := h
  exact ⟨p :: inner, rfl, List.forall_mem_cons.mpr ⟨hp, hinner⟩⟩

theorem Within.cons (h : L.Within c) {p : Place} (hp : ¬p.site.Implicit) : Within (p :: L) c := by
  cases c with
  | none => trivial
  | base =>
    obtain ⟨f, outer, hmethod⟩ := h
    exact ⟨f, outer, hmethod.enter hp⟩
  | subclass =>
    obtain ⟨f, ms, outer, hmethod, hmem⟩ := h
    exact ⟨f, ms, outer, hmethod.enter hp, hmem⟩

theorem Inside.within (h : L.Inside c) : L.Within c := by
  obtain rfl | ⟨p, outer, rfl, hp, houter⟩ := h
  · trivial
  · exact houter.cons hp

theorem Within.enter (h : L.Within c) {site : Site} (hsite : ¬site.Implicit) (count : Nat) :
    Inside (site.enter count L) c := .inr ⟨_, L, rfl, hsite, h⟩

theorem Inside.of_sites (h : L.Inside c) (hsites : L'.map Place.site = L.map Place.site)
    (htail : L'.tail = L.tail) : L'.Inside c := by
  obtain hc | ⟨p, outer, rfl, hp, houter⟩ := h
  · exact .inl hc
  · cases L' with
    | nil => simp at hsites
    | cons p' outer' =>
      obtain rfl : outer' = outer := htail
      have hsite : p'.site = p.site := (List.cons.inj hsites).1
      exact .inr ⟨p', outer', rfl, hsite ▸ hp, houter⟩

theorem Inside.declare (h : L.Inside c) : L.declare.Inside c :=
  h.of_sites (by cases L <;> rfl) (by cases L <;> rfl)

theorem Inside.await (h : L.Inside c) (t : Token) (value : Expr) : (L.await t value).Inside c :=
  h.of_sites (by cases L <;> rfl) (by cases L <;> rfl)

theorem Inside.after (h : L.Inside c) (s : Stmt) : (L.after s).Inside c := by
  unfold Lexical.after
  split
  · exact h.declare
  · exact h

theorem within_base (f : Function) (L : Lexical) : Within ((Site.this f).enter 1 L) .base :=
  ⟨f, L, [], rfl, by simp⟩

theorem within_subclass {m : Method} {ms : List Method} (hm : m ∈ ms) (L : Lexical) :
    Within ((Site.this m.function).enter 1 ((Site.super ms).enter 1 L)) .subclass :=
  ⟨m.function, ms, L, ⟨[], rfl, by simp⟩, List.mem_map_of_mem hm⟩

end Lexical

/-- Where a node that uses a name may stand, and which names it may use there. -/
structure Node.Regular (node : Node) : Prop where
  proper : node.context.Proper
  named : node.role.Names node.name
  inMethod : node.role = .this → ∃ f outer, node.context.InMethod f outer
  inSubclass : node.role = .super → ∃ f ms outer,
    node.context.InMethod f ((Site.super ms).enter 1 outer) ∧ f ∈ ms.map Method.function

namespace Walk

variable {w : Walk} {L : Lexical} {c : ClassContext} {id : Nat} {name : Token}

theorem regular_variable (hL : L.Proper) {role : Role} (hrole : role = .read ∨ role = .write)
    (hname : name.Ordinary) : (⟨role, id, name, L⟩ : Node).Regular := by
  obtain rfl | rfl := hrole
  · exact ⟨hL, hname, nofun, nofun⟩
  · exact ⟨hL, hname, nofun, nofun⟩

theorem regular_this (hL : L.Proper) (hc : L.Within c) (hname : name.lexeme = "this")
    (hclean : (w.readThis c id name).Clean) : (⟨.this, id, name, L⟩ : Node).Regular := by
  cases c with
  | none => exact absurd hclean (not_clean_misuse _ _ _)
  | base => exact ⟨hL, hname, fun _ => hc, nofun⟩
  | subclass =>
    obtain ⟨f, ms, outer, hmethod, -⟩ := hc
    exact ⟨hL, hname, fun _ => ⟨f, _, hmethod⟩, nofun⟩

theorem regular_super (hL : L.Proper) (hc : L.Within c) (hname : name.lexeme = "super")
    (hclean : (w.readSuper c id name).Clean) : (⟨.super, id, name, L⟩ : Node).Regular := by
  cases c with
  | none => exact absurd hclean (not_clean_misuse _ _ _)
  | base => exact absurd hclean (not_clean_misuse _ _ _)
  | subclass => exact ⟨hL, hname, nofun, fun _ => hc⟩

end Walk

open Walk Lexical

theorem not_implicit_function (f : Function) : ¬(Site.function f).Implicit := id

theorem not_implicit_block (ss : List Stmt) : ¬(Site.block ss).Implicit := id

theorem ordinary_block {loop : Bool} {ss : List Stmt} (h : FormedStatements loop ss) :
    (Site.block ss).Ordinary := fun _ hname => ordinary_of_formedStatements h hname

mutual

theorem Expr.regular_nodes (c : Context) {w : Walk} {L : Lexical} : (e : Expr) → L.Proper →
    L.Within c.inClass → (e.walk c w).Clean → e.Formed → ∀ node ∈ e.nodes L, node.Regular
  | .literal _, _, _, _, _ => by simp [Expr.nodes]
  | .grouping e, hL, hin, hc, hf => e.regular_nodes c hL hin hc hf
  | .unary _ e, hL, hin, hc, hf => e.regular_nodes c hL hin hc hf
  | .binary e₁ _ e₂, hL, hin, hc, hf => List.forall_mem_append.mpr
    ⟨e₁.regular_nodes c hL hin ((e₂.walk_keeps c _).clean hc) hf.1, e₂.regular_nodes c hL hin hc hf.2⟩
  | .logical e₁ _ e₂, hL, hin, hc, hf => List.forall_mem_append.mpr
    ⟨e₁.regular_nodes c hL hin ((e₂.walk_keeps c _).clean hc) hf.1, e₂.regular_nodes c hL hin hc hf.2⟩
  | .variable _ _, hL, _, _, hf => List.forall_mem_singleton.mpr (regular_variable hL (.inl rfl) hf)
  | .assign id name e, hL, hin, hc, hf => List.forall_mem_append.mpr
    ⟨e.regular_nodes c hL hin ((keeps_assignVariable _ id name).clean hc) hf.2,
      List.forall_mem_singleton.mpr (regular_variable hL (.inr rfl) hf.1)⟩
  | .call e _ es, hL, hin, hc, hf => List.forall_mem_append.mpr
    ⟨e.regular_nodes c hL hin ((walkArguments_keeps c _ es).clean hc) hf.1,
      regular_nodesOfAll c es hL hin hc hf.2⟩
  | .get e _, hL, hin, hc, hf => e.regular_nodes c hL hin hc hf
  | .set e₁ _ e₂, hL, hin, hc, hf => List.forall_mem_append.mpr
    ⟨e₂.regular_nodes c hL hin ((e₁.walk_keeps c _).clean hc) hf.2, e₁.regular_nodes c hL hin hc hf.1⟩
  | .this _ _, hL, hin, hc, hf => List.forall_mem_singleton.mpr (regular_this hL hin hf hc)
  | .super _ _ _, hL, hin, hc, hf => List.forall_mem_singleton.mpr (regular_super hL hin hf hc)
  | .function f, hL, hin, hc, hf => f.regular_nodes { c with inFunction := .function } hL hin hc hf

theorem regular_nodesOfAll (c : Context) {w : Walk} {L : Lexical} : (es : List Expr) → L.Proper →
    L.Within c.inClass → (walkArguments c w es).Clean → FormedAll es →
    ∀ node ∈ nodesOfAll L es, node.Regular
  | [], _, _, _, _ => by simp [nodesOfAll]
  | e :: es, hL, hin, hc, hf => List.forall_mem_append.mpr
    ⟨e.regular_nodes c hL hin ((walkArguments_keeps c _ es).clean hc) hf.1,
      regular_nodesOfAll c es hL hin hc hf.2⟩

theorem Function.regular_nodes (c : Context) {w : Walk} {L : Lexical} : (f : Function) → L.Proper →
    L.Within c.inClass → (f.walk c w).Clean → f.Formed → ∀ node ∈ f.nodes L, node.Regular
  | ⟨params, body⟩, hL, hin, hc, hf =>
    have hproper := hL.enter (Function.Formed.ordinary hf) nofun params.length
    have hinside := hin.enter (not_implicit_function ⟨params, body⟩) params.length
    regular_nodesOfStatements c body hproper hinside ((keeps_leave _).clean hc) hf.2

theorem Stmt.regular_nodes (c : Context) {w : Walk} {L : Lexical} {loop : Bool} : (s : Stmt) →
    L.Proper → L.Inside c.inClass → (s.walk c w).Clean → s.Formed loop →
    ∀ node ∈ s.nodes L, node.Regular
  | .expression e, hL, hin, hc, hf => e.regular_nodes c hL hin.within hc hf
  | .print e, hL, hin, hc, hf => e.regular_nodes c hL hin.within hc hf
  | .var _ none, _, _, _, _ => by simp [Stmt.nodes]
  | .var name (some e), hL, hin, hc, hf =>
    e.regular_nodes c (hL.await name e) (hin.await name e).within ((keeps_define _ name).clean hc) hf.2
  | .block ss, hL, hin, hc, hf =>
    have hproper := hL.enter (ordinary_block hf) nofun 0
    have hinside := hin.within.enter (not_implicit_block ss) 0
    regular_nodesOfStatements c ss hproper hinside ((keeps_leave _).clean hc) hf
  | .ifElse e s none, hL, hin, hc, hf => List.forall_mem_append.mpr
    ⟨e.regular_nodes c hL hin.within ((s.walk_keeps c _).clean hc) hf.1,
      s.regular_nodes c hL hin hc hf.2.1⟩
  | .ifElse e s (some s'), hL, hin, hc, hf =>
    have hthen := (s'.walk_keeps c _).clean hc
    List.forall_mem_append.mpr
      ⟨e.regular_nodes c hL hin.within ((s.walk_keeps c _).clean hthen) hf.1,
        List.forall_mem_append.mpr ⟨s.regular_nodes c hL hin hthen hf.2.1.1,
          s'.regular_nodes c hL hin hc hf.2.2.1⟩⟩
  | .while e s, hL, hin, hc, hf => List.forall_mem_append.mpr
    ⟨e.regular_nodes c hL hin.within ((s.walk_keeps c _).clean hc) hf.1,
      s.regular_nodes c hL hin hc hf.2.1⟩
  | .break _, _, _, _, _ => by simp [Stmt.nodes]
  | .return _ none, _, _, _, _ => by simp [Stmt.nodes]
  | .return _ (some e), hL, hin, hc, hf => e.regular_nodes c hL hin.within hc hf
  | .function ⟨_, f⟩, hL, hin, hc, hf =>
    f.regular_nodes { c with inFunction := .function } hL.declare hin.declare.within hc hf.2
  | .class _ none ms, hL, _, hc, hf =>
    have hthis : ∀ f, (Site.this f).Ordinary := fun _ => trivial
    have hproper := fun f => hL.declare.enter (hthis f) nofun 1
    have hwithin := fun (m : Method) (_ : m ∈ ms) => within_base m.function L.declare
    regular_nodesOfMethods { c with inClass := .base } ms hproper hwithin
      ((keeps_leave _).clean hc) hf.2
  | .class name (some e) ms, hL, hin, hc, hf => by
    have hmethods := (keeps_leave _).clean ((keeps_leave _).clean hc)
    obtain ⟨id, t, rfl, ht⟩ := hf.2.1
    have hproper := fun f => hL.declare.subclass f ms
    have hwithin := fun (m : Method) (hm : m ∈ ms) => within_subclass hm L.declare
    have hsuperclass : ∀ node ∈ Expr.nodes L (.variable id t), node.Regular :=
      List.forall_mem_singleton.mpr (regular_variable hL (.inl rfl) ht)
    exact List.forall_mem_append.mpr ⟨hsuperclass,
      regular_nodesOfMethods { c with inClass := .subclass } ms hproper hwithin hmethods hf.2.2⟩

theorem regular_nodesOfStatements (c : Context) {w : Walk} {L : Lexical} {loop : Bool} :
    (ss : List Stmt) → L.Proper → L.Inside c.inClass → (walkStatements c w ss).Clean →
    FormedStatements loop ss → ∀ node ∈ nodesOfStatements L ss, node.Regular
  | [], _, _, _, _ => by simp [nodesOfStatements]
  | s :: ss, hL, hin, hc, hf => List.forall_mem_append.mpr
    ⟨s.regular_nodes c hL hin ((walkStatements_keeps c _ ss).clean hc) hf.1,
      regular_nodesOfStatements c ss (hL.after s) (hin.after s) hc hf.2⟩

theorem regular_nodesOfMethods (c : Context) {w : Walk} {L : Lexical} : (ms : List Method) →
    (∀ f, ((Site.this f).enter 1 L).Proper) →
    (∀ m ∈ ms, Lexical.Within ((Site.this m.function).enter 1 L) c.inClass) →
    (walkMethods c w ms).Clean → FormedMethods ms → ∀ node ∈ nodesOfMethods L ms, node.Regular
  | [], _, _, _, _ => by simp [nodesOfMethods]
  | ⟨name, f⟩ :: ms, hL, hin, hc, hf => by
    obtain ⟨hfirst, hrest⟩ := List.forall_mem_cons.mp hin
    have hhead := f.regular_nodes { c with inFunction := methodContext name } (hL f) hfirst
      ((walkMethods_keeps c _ ms).clean hc) hf.1
    exact List.forall_mem_append.mpr ⟨hhead, regular_nodesOfMethods c ms hL hrest hc hf.2⟩

end

/-- The nodes of an accepted program. -/
theorem regular_of_resolve {lint : Lint} {program : List Stmt} {r : Resolution}
    (h : resolve lint program = .ok r) (hf : FormedStatements false program) :
    ∀ node ∈ nodesOfStatements [] program, node.Regular :=
  regular_nodesOfStatements .top program .nil (.inl rfl) (clean_of_resolve h).1 hf

end Lox
