import Lox.Proofs.Tree.Formed
import Lox.Scope

namespace Lox

/-- The names that statements add to the scope they stand in. -/
def declaredNames (ss : List Stmt) : List String := ss.filterMap fun s => s.declared?.map (·.lexeme)

/-- A stretch of text that is a scope. -/
inductive Site where
  | block (statements : List Stmt)
  | function (function : Function)
  /-- Around a method. -/
  | this (method : Function)
  /-- Around the methods of a subclass. -/
  | super (methods : List Method)

/-- All names of a scope; the place of a name in the list is its slot. -/
def Site.names : Site → List String
  | block statements => declaredNames statements
  | function ⟨params, body⟩ => params.map (·.lexeme) ++ declaredNames body
  | this _ => ["this"]
  | super _ => ["super"]

/-- A point of a scope, where so many of its declarations have been passed. In the initializer of
the next one that variable is pending. -/
structure Place where
  site : Site
  count : Nat
  pending : Option (Token × Expr)

/-- The names that can be seen from a point of a scope. -/
def Place.names (p : Place) : List String :=
  p.site.names.take (if p.pending.isSome then p.count + 1 else p.count)

theorem Place.getElem?_names {p : Place} {slot : Nat} {name : String}
    (h : p.names[slot]? = some name) :
    p.site.names[slot]? = some name ∧ slot < if p.pending.isSome then p.count + 1 else p.count := by
  rw [Place.names] at h
  generalize (if p.pending.isSome then p.count + 1 else p.count) = visible at h ⊢
  rw [List.getElem?_take] at h
  split at h
  next hlt => exact ⟨h, hlt⟩
  next => simp at h

/-- The places around a node, innermost first. -/
abbrev Lexical := List Place

namespace Lexical

/-- The innermost scope in which a name can be seen, and its slot there. -/
def lookup : Lexical → String → Option Address
  | [], _ => none
  | p :: outer, name =>
    match p.names.findIdx? (· = name) with
    | some slot => some ⟨0, slot⟩
    | none => (lookup outer name).map Address.outward

/-- Behind a declaration. -/
def declare : Lexical → Lexical
  | [] => []
  | p :: outer => { p with count := p.count + 1 } :: outer

/-- In the initializer of a variable. -/
def await (name : Token) (value : Expr) : Lexical → Lexical
  | [] => []
  | p :: outer => { p with pending := some (name, value) } :: outer

def after (L : Lexical) (s : Stmt) : Lexical :=
  match s.declared? with
  | some _ => L.declare
  | none => L

/-- Is the name of this statement the next one of the scope? -/
def Expects (L : Lexical) (s : Stmt) : Prop :=
  ∀ t, s.declared? = some t → ∀ p ∈ L.head?, p.pending = none ∧ p.site.names[p.count]? = some t.lexeme

/-- Are the names of these statements the last ones of the scope? -/
def ExpectsAll (L : Lexical) (ss : List Stmt) : Prop :=
  ∀ p ∈ L.head?, p.pending = none ∧ p.count ≤ p.site.names.length ∧
    p.site.names.drop p.count = declaredNames ss

theorem expects_of_declared?_eq_none {L : Lexical} {s : Stmt} (h : s.declared? = none) :
    L.Expects s := fun t ht => by simp [h] at ht

theorem ExpectsAll.head {L : Lexical} {s : Stmt} {ss : List Stmt} (h : L.ExpectsAll (s :: ss)) :
    L.Expects s := by
  intro t ht p hp
  obtain ⟨hpending, hcount, hnames⟩ := h p hp
  refine ⟨hpending, ?_⟩
  have hnext := congrArg List.head? hnames
  rw [List.head?_drop] at hnext
  rw [hnext, declaredNames, List.filterMap_cons_some (by rw [ht]; rfl)]
  rfl

theorem ExpectsAll.tail {L : Lexical} {s : Stmt} {ss : List Stmt} (h : L.ExpectsAll (s :: ss)) :
    (L.after s).ExpectsAll ss := by
  cases L with
  | nil => cases hs : s.declared? <;> simp [after, hs, declare, ExpectsAll]
  | cons p outer =>
    obtain ⟨hpending, hcount, hnames⟩ := h p rfl
    cases hs : s.declared? with
    | none =>
      rw [declaredNames, List.filterMap_cons_none (by rw [hs]; rfl)] at hnames
      simp only [after, hs]
      rintro _ ⟨⟩
      exact ⟨hpending, hcount, hnames⟩
    | some t =>
      rw [declaredNames, List.filterMap_cons_some (by rw [hs]; rfl)] at hnames
      simp only [after, hs, declare]
      rintro _ ⟨⟩
      have hlen := congrArg List.length hnames
      have htail := congrArg List.tail hnames
      simp only [List.length_drop, List.length_cons] at hlen
      rw [List.tail_drop, List.tail_cons] at htail
      refine ⟨hpending, ?_, htail⟩
      show p.count + 1 ≤ p.site.names.length
      omega

end Lexical

/-- What a node does with the name it looks up. -/
inductive Role where
  | read
  | write
  | this
  | super
deriving DecidableEq

/-- A node that names something, and where it stands. -/
structure Node where
  role : Role
  id : Nat
  name : Token
  context : Lexical

/-- The address that belongs to a node. -/
def Node.address? (node : Node) : Option Address := node.context.lookup node.name.lexeme

def Node.entry? (node : Node) : Option (Nat × Address) := node.address?.map (node.id, ·)

def Site.enter (site : Site) (count : Nat) (L : Lexical) : Lexical := ⟨site, count, none⟩ :: L

mutual

/-- The nodes of an expression in the order in which scopes are searched. -/
def Expr.nodes (L : Lexical) : Expr → List Node
  | .literal _ => []
  | .grouping inner => inner.nodes L
  | .unary _ right => right.nodes L
  | .binary left _ right => left.nodes L ++ right.nodes L
  | .logical left _ right => left.nodes L ++ right.nodes L
  | .variable id name => [⟨.read, id, name, L⟩]
  | .assign id name value => value.nodes L ++ [⟨.write, id, name, L⟩]
  | .call callee _ arguments => callee.nodes L ++ nodesOfAll L arguments
  | .get object _ => object.nodes L
  | .set object _ value => value.nodes L ++ object.nodes L
  | .this id keyword => [⟨.this, id, keyword, L⟩]
  | .super id keyword _ => [⟨.super, id, keyword, L⟩]
  | .function function => function.nodes L

def nodesOfAll (L : Lexical) : List Expr → List Node
  | [] => []
  | e :: es => e.nodes L ++ nodesOfAll L es

/-- Parameters and body are in one scope. -/
def Function.nodes (L : Lexical) : Function → List Node
  | ⟨params, body⟩ => nodesOfStatements ((Site.function ⟨params, body⟩).enter params.length L) body

def Stmt.nodes (L : Lexical) : Stmt → List Node
  | .expression expr => expr.nodes L
  | .print expr => expr.nodes L
  | .var _ none => []
  | .var name (some value) => value.nodes (L.await name value)
  | .block statements => nodesOfStatements ((Site.block statements).enter 0 L) statements
  | .ifElse condition thenBranch none => condition.nodes L ++ thenBranch.nodes L
  | .ifElse condition thenBranch (some elseBranch) =>
    condition.nodes L ++ (thenBranch.nodes L ++ elseBranch.nodes L)
  | .while condition body => condition.nodes L ++ body.nodes L
  | .break _ => []
  | .return _ none => []
  | .return _ (some value) => value.nodes L
  | .function ⟨_, function⟩ => function.nodes L.declare
  | .class _ none methods => nodesOfMethods L.declare methods
  | .class _ (some superclass) methods =>
    superclass.nodes L ++ nodesOfMethods ((Site.super methods).enter 1 L.declare) methods

def nodesOfStatements (L : Lexical) : List Stmt → List Node
  | [] => []
  | s :: ss => s.nodes L ++ nodesOfStatements (L.after s) ss

def nodesOfMethods (L : Lexical) : List Method → List Node
  | [] => []
  | ⟨_, function⟩ :: ms => function.nodes ((Site.this function).enter 1 L) ++ nodesOfMethods L ms

end

end Lox
