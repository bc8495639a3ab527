import Lox.Tree

namespace Lox

mutual

/-- The identities of the nodes that name something, in the order in which scopes are searched. -/
def Expr.ids : Expr → List Nat
  | .literal _ => []
  | .grouping inner => inner.ids
  | .unary _ right => right.ids
  | .binary left _ right => left.ids ++ right.ids
  | .logical left _ right => left.ids ++ right.ids
  | .variable id _ => [id]
  | .assign id _ value => value.ids ++ [id]
  | .call callee _ arguments => callee.ids ++ idsOfAll arguments
  | .get object _ => object.ids
  | .set object _ value => value.ids ++ object.ids
  | .this id _ => [id]
  | .super id _ _ => [id]
  | .function function => function.ids

def idsOfAll : List Expr → List Nat
  | [] => []
  | e :: es => e.ids ++ idsOfAll es

def Function.ids : Function → List Nat
  | ⟨_, body⟩ => idsOfStatements body

def Method.ids : Method → List Nat
  | ⟨_, function⟩ => function.ids

def Stmt.ids : Stmt → List Nat
  | .expression expr => expr.ids
  | .print expr => expr.ids
  | .var _ none => []
  | .var _ (some value) => value.ids
  | .block statements => idsOfStatements statements
  | .ifElse condition thenBranch none => condition.ids ++ thenBranch.ids
  | .ifElse condition thenBranch (some elseBranch) =>
    condition.ids ++ (thenBranch.ids ++ elseBranch.ids)
  | .while condition body => condition.ids ++ body.ids
  | .break _ => []
  | .return _ none => []
  | .return _ (some value) => value.ids
  | .function declaration => declaration.ids
  | .class _ none methods => idsOfMethods methods
  | .class _ (some superclass) methods => superclass.ids ++ idsOfMethods methods

def idsOfStatements : List Stmt → List Nat
  | [] => []
  | s :: ss => s.ids ++ idsOfStatements ss

def idsOfMethods : List Method → List Nat
  | [] => []
  | m :: ms => m.ids ++ idsOfMethods ms

end

/-- Identities from `a` on and below `b`, each at most once. -/
structure Fresh (a b : Nat) (ids : List Nat) : Prop where
  nodup : ids.Nodup
  range : ∀ i ∈ ids, a ≤ i ∧ i < b

namespace Fresh

theorem nil {a b : Nat} : Fresh a b [] := ⟨List.nodup_nil, by simp⟩

theorem one (a : Nat) : Fresh a (a + 1) [a] := ⟨by simp, by simp⟩

theorem mono {a a' b b' : Nat} {ids : List Nat} (h : Fresh a b ids) (ha : a' ≤ a) (hb : b ≤ b') :
    Fresh a' b' ids := by
  refine ⟨h.nodup, fun i hi => ?_⟩
  have := h.range i hi
  omega

theorem append {a b c : Nat} {ids₁ ids₂ : List Nat} (h₁ : Fresh a b ids₁) (h₂ : Fresh b c ids₂)
    (hab : a ≤ b) (hbc : b ≤ c) : Fresh a c (ids₁ ++ ids₂) := by
  refine ⟨List.nodup_append.mpr ⟨h₁.nodup, h₂.nodup, fun i hi j hj => ?_⟩, fun i hi => ?_⟩
  · have := (h₁.range i hi).2
    have := (h₂.range j hj).1
    omega
  · rcases List.mem_append.mp hi with hi | hi
    · have := h₁.range i hi
      omega
    · have := h₂.range i hi
      omega

theorem perm {a b : Nat} {ids ids' : List Nat} (h : Fresh a b ids) (hp : ids.Perm ids') :
    Fresh a b ids' :=
  ⟨hp.nodup_iff.mp h.nodup, fun i hi => h.range i (hp.mem_iff.mpr hi)⟩

end Fresh

end Lox
