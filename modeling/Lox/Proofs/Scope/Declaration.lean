import Lox.Proofs.Scope.Around

namespace Lox

/-- The names that stand in a scope of the text. -/
def Site.tokens : Site → List Token
  | block statements => statements.filterMap Stmt.declared?
  | function ⟨params, body⟩ => params ++ body.filterMap Stmt.declared?
  | this _ | super _ => []

/-- A name that is declared in a scope, and where this scope stands. -/
structure Declaration where
  name : Token
  slot : Nat
  site : Site
  around : Lexical

def Declaration.report (d : Declaration) : Diagnostic :=
  ⟨d.name.line, .scope (.unused d.name.lexeme)⟩

/-- What is declared in a scope, from its first declaration on. -/
def Site.declarations (L : Lexical) (site : Site) : List Declaration :=
  site.tokens.zipIdx.map fun (name, slot) => ⟨name, slot, site, L⟩

mutual

/-- The declarations of the scopes in an expression; a scope ends behind those that are in it. -/
def Expr.declarations (L : Lexical) : Expr → List Declaration
  | .literal _ => []
  | .grouping inner => inner.declarations L
  | .unary _ right => right.declarations L
  | .binary left _ right => left.declarations L ++ right.declarations L
  | .logical left _ right => left.declarations L ++ right.declarations L
  | .variable _ _ => []
  | .assign _ _ value => value.declarations L
  | .call callee _ arguments => callee.declarations L ++ declarationsOfAll L arguments
  | .get object _ => object.declarations L
  | .set object _ value => value.declarations L ++ object.declarations L
  | .this _ _ => []
  | .super _ _ _ => []
  | .function function => function.declarations L

def declarationsOfAll (L : Lexical) : List Expr → List Declaration
  | [] => []
  | e :: es => e.declarations L ++ declarationsOfAll L es

def Function.declarations (L : Lexical) : Function → List Declaration
  | ⟨params, body⟩ =>
    declarationsOfStatements ((Site.function ⟨params, body⟩).enter params.length L) body ++
      (Site.function ⟨params, body⟩).declarations L

def Stmt.declarations (L : Lexical) : Stmt → List Declaration
  | .expression expr => expr.declarations L
  | .print expr => expr.declarations L
  | .var _ none => []
  | .var name (some value) => value.declarations (L.await name value)
  | .block statements =>
    declarationsOfStatements ((Site.block statements).enter 0 L) statements ++
      (Site.block statements).declarations L
  | .ifElse condition thenBranch none => condition.declarations L ++ thenBranch.declarations L
  | .ifElse condition thenBranch (some elseBranch) =>
    condition.declarations L ++ (thenBranch.declarations L ++ elseBranch.declarations L)
  | .while condition body => condition.declarations L ++ body.declarations L
  | .break _ => []
  | .return _ none => []
  | .return _ (some value) => value.declarations L
  | .function ⟨_, function⟩ => function.declarations L.declare
  | .class _ none methods => declarationsOfMethods L.declare methods
  | .class _ (some superclass) methods =>
    superclass.declarations L ++
      declarationsOfMethods ((Site.super methods).enter 1 L.declare) methods

def declarationsOfStatements (L : Lexical) : List Stmt → List Declaration
  | [] => []
  | s :: ss => s.declarations L ++ declarationsOfStatements (L.after s) ss

def declarationsOfMethods (L : Lexical) : List Method → List Declaration
  | [] => []
  | ⟨_, function⟩ :: ms =>
    function.declarations ((Site.this function).enter 1 L) ++ declarationsOfMethods L ms

end

/-- The declarations of a program; what it declares at top level is global and not among them. -/
def declarationsOfProgram (program : List Stmt) : List Declaration :=
  declarationsOfStatements [] program

/-- What the node looks up is the name that is declared here. -/
def Node.Uses (node : Node) (d : Declaration) : Prop :=
  ∃ depth p, node.address? = some ⟨depth, d.slot⟩ ∧ node.context.drop depth = p :: d.around ∧
    p.site = d.site

/-- Some node of the program reads the name that is declared here. -/
def Declaration.ReadIn (d : Declaration) (program : List Stmt) : Prop :=
  ∃ node ∈ nodesOfStatements [] program, node.role = .read ∧ node.Uses d

/-- The nodes that stand in a scope. -/
def Site.nodes (L : Lexical) : Site → List Node
  | block ss => nodesOfStatements ((block ss).enter 0 L) ss
  | function f => f.nodes L
  | this f => f.nodes ((this f).enter 1 L)
  | super ms => nodesOfMethods ((super ms).enter 1 L) ms

theorem Site.split_nodes (L : Lexical) (site : Site) : ∀ node ∈ site.nodes L,
    ∃ inner p, node.context = inner ++ p :: L ∧ p.site = site := by
  intro node hnode
  cases site with
  | block ss => exact (around_nodesOfStatements _ ss node hnode).split
  | function f =>
    obtain ⟨params, body⟩ := f
    exact (around_nodesOfStatements _ body node hnode).split
  | this f => exact (f.around_nodes _ node hnode).split
  | super ms => exact (around_nodesOfMethods _ ms node hnode).split

/-- The node stands in every scope that is around it, as far out as the places `L`. -/
def Node.In (L : Lexical) (node : Node) : Prop :=
  ∀ inner p outer, node.context = inner ++ p :: outer → L.length ≤ outer.length →
    node ∈ p.site.nodes outer

namespace Node.In

variable {L L' : Lexical} {node : Node}

theorem of_length (h : node.In L') (hlen : L'.length = L.length) : node.In L :=
  fun inner p outer hcontext hle => h inner p outer hcontext (hlen ▸ hle)

/-- Right at `L` there is no scope further in. -/
theorem here {role : Role} {id : Nat} {name : Token} : (⟨role, id, name, L⟩ : Node).In L := by
  intro inner p outer hcontext hle
  have hlen := congrArg List.length hcontext
  simp only [List.length_append, List.length_cons] at hlen
  omega

/-- One scope further out it is the scope itself that the node has to stand in. -/
theorem of_enter (site : Site) {count : Nat} (h : node.In (site.enter count L))
    (hnode : node ∈ site.nodes L) : node.In L := by
  intro inner p outer hcontext hle
  by_cases hlt : L.length < outer.length
  · exact h inner p outer hcontext hlt
  · obtain ⟨inner', p', hcontext', hsite⟩ := site.split_nodes L node hnode
    have hsame : inner ++ p :: outer = inner' ++ p' :: L := hcontext.symm.trans hcontext'
    have hlen : (p :: outer).length = (p' :: L).length := by
      simp only [List.length_cons]
      omega
    obtain ⟨-, heq⟩ := List.append_inj' hsame hlen
    obtain ⟨rfl, rfl⟩ := List.cons.inj heq
    exact hsite ▸ hnode

end Node.In

@[simp] theorem Lexical.length_declare (L : Lexical) : L.declare.length = L.length := by
  cases L <;> rfl

@[simp] theorem Lexical.length_await (L : Lexical) (t : Token) (value : Expr) :
    (L.await t value).length = L.length := by
  cases L <;> rfl

@[simp] theorem Lexical.length_after (L : Lexical) (s : Stmt) :
    (L.after s).length = L.length := by
  unfold after
  split
  · exact L.length_declare
  · rfl

mutual

theorem Expr.in_nodes (L : Lexical) : (e : Expr) → ∀ node ∈ e.nodes L, node.In L
  | .literal _ => by simp [Expr.nodes]
  | .grouping e => e.in_nodes L
  | .unary _ e => e.in_nodes L
  | .binary e₁ _ e₂ => List.forall_mem_append.mpr ⟨e₁.in_nodes L, e₂.in_nodes L⟩
  | .logical e₁ _ e₂ => List.forall_mem_append.mpr ⟨e₁.in_nodes L, e₂.in_nodes L⟩
  | .variable _ _ => List.forall_mem_singleton.mpr .here
  | .assign _ _ e => List.forall_mem_append.mpr ⟨e.in_nodes L, List.forall_mem_singleton.mpr .here⟩
  | .call e _ es => List.forall_mem_append.mpr ⟨e.in_nodes L, in_nodesOfAll L es⟩
  | .get e _ => e.in_nodes L
  | .set e₁ _ e₂ => List.forall_mem_append.mpr ⟨e₂.in_nodes L, e₁.in_nodes L⟩
  | .this _ _ => List.forall_mem_singleton.mpr .here
  | .super _ _ _ => List.forall_mem_singleton.mpr .here
  | .function f => f.in_nodes L

theorem in_nodesOfAll (L : Lexical) : (es : List Expr) → ∀ node ∈ nodesOfAll L es, node.In L
  | [] => by simp [nodesOfAll]
  | e :: es => List.forall_mem_append.mpr ⟨e.in_nodes L, in_nodesOfAll L es⟩

theorem Function.in_nodes (L : Lexical) : (f : Function) → ∀ node ∈ f.nodes L, node.In L
  | ⟨params, body⟩ => fun node hnode =>
    (in_nodesOfStatements _ body node hnode).of_enter (.function ⟨params, body⟩) hnode

theorem Stmt.in_nodes (L : Lexical) : (s : Stmt) → ∀ node ∈ s.nodes L, node.In L
  | .expression e => e.in_nodes L
  | .print e => e.in_nodes L
  | .var _ none => by simp [Stmt.nodes]
  | .var _ (some e) => fun node hnode => (e.in_nodes _ node hnode).of_length (by simp)
  | .block ss => fun node hnode =>
    (in_nodesOfStatements _ ss node hnode).of_enter (.block ss) hnode
  | .ifElse e s none => List.forall_mem_append.mpr ⟨e.in_nodes L, s.in_nodes L⟩
  | .ifElse e s (some s') => List.forall_mem_append.mpr
    ⟨e.in_nodes L, List.forall_mem_append.mpr ⟨s.in_nodes L, s'.in_nodes L⟩⟩
  | .while e s => List.forall_mem_append.mpr ⟨e.in_nodes L, s.in_nodes L⟩
  | .break _ => by simp [Stmt.nodes]
  | .return _ none => by simp [Stmt.nodes]
  | .return _ (some e) => e.in_nodes L
  | .function ⟨_, f⟩ => fun node hnode => (f.in_nodes _ node hnode).of_length (by simp)
  | .class _ none ms => fun node hnode => (in_nodesOfMethods _ ms node hnode).of_length (by simp)
  | .class _ (some e) ms => List.forall_mem_append.mpr ⟨e.in_nodes L, fun node hnode =>
    ((in_nodesOfMethods _ ms node hnode).of_enter (.super ms) hnode).of_length (by simp)⟩

theorem in_nodesOfStatements (L : Lexical) :
    (ss : List Stmt) → ∀ node ∈ nodesOfStatements L ss, node.In L
  | [] => by simp [nodesOfStatements]
  | s :: ss => List.forall_mem_append.mpr ⟨s.in_nodes L, fun node hnode =>
    (in_nodesOfStatements _ ss node hnode).of_length (by simp)⟩

theorem in_nodesOfMethods (L : Lexical) :
    (ms : List Method) → ∀ node ∈ nodesOfMethods L ms, node.In L
  | [] => by simp [nodesOfMethods]
  | ⟨_, f⟩ :: ms => List.forall_mem_append.mpr ⟨fun node hnode =>
    (f.in_nodes _ node hnode).of_enter (.this f) hnode, in_nodesOfMethods L ms⟩

end

/-- The name stands in its scope, and all nodes of this scope are among these. -/
structure Declaration.In (nodes : List Node) (d : Declaration) : Prop where
  declared : d.name ∈ d.site.tokens
  subset : d.site.nodes d.around ⊆ nodes

theorem Declaration.In.mono {ns ns' : List Node} {d : Declaration} (h : d.In ns)
    (hsub : ns ⊆ ns') : d.In ns' :=
  ⟨h.declared, fun _ hn => hsub (h.subset hn)⟩

theorem Site.in_declarations (L : Lexical) (site : Site) :
    ∀ d ∈ site.declarations L, d.In (site.nodes L) := by
  intro d hd
  obtain ⟨⟨name, slot⟩, hx, rfl⟩ := List.mem_map.mp hd
  exact ⟨List.fst_mem_of_mem_zipIdx hx, List.Subset.refl _⟩

theorem Declaration.In.forall_append {ds ds' : List Declaration} {ns ns' : List Node}
    (h : ∀ d ∈ ds, d.In ns) (h' : ∀ d ∈ ds', d.In ns') : ∀ d ∈ ds ++ ds', d.In (ns ++ ns') :=
  List.forall_mem_append.mpr ⟨fun d hd => (h d hd).mono (List.subset_append_left ns ns'),
    fun d hd => (h' d hd).mono (List.subset_append_right ns ns')⟩

theorem Site.in_all {ds : List Declaration} {L : Lexical} (site : Site)
    (h : ∀ d ∈ ds, d.In (site.nodes L)) : ∀ d ∈ ds ++ site.declarations L, d.In (site.nodes L) :=
  List.forall_mem_append.mpr ⟨h, site.in_declarations L⟩

mutual

theorem Expr.in_declarations (L : Lexical) : (e : Expr) → ∀ d ∈ e.declarations L, d.In (e.nodes L)
  | .literal _ | .variable _ _ | .this _ _ | .super _ _ _ => by simp [Expr.declarations]
  | .grouping e => e.in_declarations L
  | .unary _ e => e.in_declarations L
  | .binary e₁ _ e₂ => Declaration.In.forall_append (e₁.in_declarations L) (e₂.in_declarations L)
  | .logical e₁ _ e₂ => Declaration.In.forall_append (e₁.in_declarations L) (e₂.in_declarations L)
  | .assign _ _ e => fun d hd => (e.in_declarations L d hd).mono (List.subset_append_left _ _)
  | .call e _ es => Declaration.In.forall_append (e.in_declarations L) (in_declarationsOfAll L es)
  | .get e _ => e.in_declarations L
  | .set e₁ _ e₂ => Declaration.In.forall_append (e₂.in_declarations L) (e₁.in_declarations L)
  | .function f => f.in_declarations L

theorem in_declarationsOfAll (L : Lexical) : (es : List Expr) →
    ∀ d ∈ declarationsOfAll L es, d.In (nodesOfAll L es)
  | [] => by simp [declarationsOfAll]
  | e :: es => Declaration.In.forall_append (e.in_declarations L) (in_declarationsOfAll L es)

theorem Function.in_declarations (L : Lexical) : (f : Function) →
    ∀ d ∈ f.declarations L, d.In (f.nodes L)
  | ⟨params, body⟩ => fun d hd => by
    have hbody := in_declarationsOfStatements
      ((Site.function ⟨params, body⟩).enter params.length L) body
    exact Site.in_all (.function ⟨params, body⟩) hbody d hd

theorem Stmt.in_declarations (L : Lexical) : (s : Stmt) → ∀ d ∈ s.declarations L, d.In (s.nodes L)
  | .expression e => e.in_declarations L
  | .print e => e.in_declarations L
  | .var _ none | .break _ | .return _ none => by simp [Stmt.declarations]
  | .var _ (some e) => e.in_declarations _
  | .block ss => fun d hd => by
    exact Site.in_all (.block ss) (in_declarationsOfStatements _ ss) d hd
  | .ifElse e s none => Declaration.In.forall_append (e.in_declarations L) (s.in_declarations L)
  | .ifElse e s (some s') => Declaration.In.forall_append (e.in_declarations L)
    (Declaration.In.forall_append (s.in_declarations L) (s'.in_declarations L))
  | .while e s => Declaration.In.forall_append (e.in_declarations L) (s.in_declarations L)
  | .return _ (some e) => e.in_declarations L
  | .function ⟨_, f⟩ => f.in_declarations _
  | .class _ none ms => in_declarationsOfMethods _ ms
  | .class _ (some e) ms =>
    Declaration.In.forall_append (e.in_declarations L) (in_declarationsOfMethods _ ms)

theorem in_declarationsOfStatements (L : Lexical) : (ss : List Stmt) →
    ∀ d ∈ declarationsOfStatements L ss, d.In (nodesOfStatements L ss)
  | [] => by simp [declarationsOfStatements]
  | s :: ss => Declaration.In.forall_append (s.in_declarations L) (in_declarationsOfStatements _ ss)

theorem in_declarationsOfMethods (L : Lexical) : (ms : List Method) →
    ∀ d ∈ declarationsOfMethods L ms, d.In (nodesOfMethods L ms)
  | [] => by simp [declarationsOfMethods]
  | ⟨_, f⟩ :: ms => Declaration.In.forall_append (f.in_declarations _) (in_declarationsOfMethods L ms)

end

end Lox
