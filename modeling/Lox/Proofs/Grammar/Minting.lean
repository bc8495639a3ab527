import Lox.Proofs.Grammar.Sound.Whole
import Mathlib.Data.List.Nodup

namespace Lox

/-- What is read: a program or an expression, from tokens or from a source. -/
inductive Parsing where
  | program (ts : List Token)
  | expression (ts : List Token)
  | programSource (source : String)
  | expressionSource (source : String)

section Reading

variable {α : Type} {treeIds : α → List Nat}

/-- The identities in the tree, if there is a tree. -/
def Reading.ids (treeIds : α → List Nat) (reading : Reading α) : List Nat :=
  match reading.result with
  | .ok a => treeIds a
  | .error _ => []

/-- All that was minted lies between the first identity and the next. -/
structure Reading.Minted (treeIds : α → List Nat) (firstId : Nat) (reading : Reading α) : Prop where
  le : firstId ≤ reading.nextId
  fresh : Fresh firstId reading.nextId (reading.ids treeIds)

theorem Grammar.ReadingSpec.minted {P : List Token → α → Prop} {ts : List Token} {firstId : Nat}
    {reading : Reading α} (h : Grammar.ReadingSpec P treeIds ts firstId reading) :
    reading.Minted treeIds firstId := by
  refine ⟨h.nextId, ?_⟩
  unfold Reading.ids
  cases hresult : reading.result with
  | ok a => exact (h.tree a hresult).2
  | error ds => exact .nil

/-- Faulty characters take the tree away, but no identity back. -/
theorem Reading.Minted.source {production : Grammar.Inner → Grammar.Parse α} {source : String}
    {firstId : Nat}
    (h : (Grammar.read production (tokens (scan source)) firstId).Minted treeIds firstId) :
    (Grammar.readSource production source firstId).Minted treeIds firstId := by
  unfold Grammar.readSource
  dsimp only
  split
  · exact h
  · exact ⟨h.le, .nil⟩
  · exact ⟨h.le, .nil⟩

end Reading

namespace Parsing

/-- The identities in the tree, and the first one that is left. -/
def read (firstId : Nat) : Parsing → List Nat × Nat
  | program ts =>
    let reading := Grammar.read Grammar.program ts firstId
    (reading.ids (List.flatMap Stmt.ids), reading.nextId)
  | expression ts =>
    let reading := Grammar.read Grammar.wholeExpression ts firstId
    (reading.ids Expr.ids, reading.nextId)
  | programSource source =>
    let reading := readProgram source firstId
    (reading.ids (List.flatMap Stmt.ids), reading.nextId)
  | expressionSource source =>
    let reading := readExpression source firstId
    (reading.ids Expr.ids, reading.nextId)

theorem fresh_read (p : Parsing) (firstId : Nat) :
    firstId ≤ (p.read firstId).2 ∧ Fresh firstId (p.read firstId).2 (p.read firstId).1 := by
  cases p with
  | program ts =>
    have h := (Grammar.read_program_spec ts firstId).minted
    exact ⟨h.le, h.fresh⟩
  | expression ts =>
    have h := (Grammar.read_wholeExpression_spec ts firstId).minted
    exact ⟨h.le, h.fresh⟩
  | programSource source =>
    have h := (Grammar.read_program_spec (tokens (scan source)) firstId).minted.source
    exact ⟨h.le, h.fresh⟩
  | expressionSource source =>
    have h := (Grammar.read_wholeExpression_spec (tokens (scan source)) firstId).minted.source
    exact ⟨h.le, h.fresh⟩

/-- The identities in all trees, and the first one that is left. -/
def readAll (firstId : Nat) : List Parsing → List Nat × Nat
  | [] => ([], firstId)
  | p :: ps =>
    let (ids, nextId) := p.read firstId
    let (more, lastId) := readAll nextId ps
    (ids ++ more, lastId)

theorem fresh_readAll (ps : List Parsing) (firstId : Nat) :
    firstId ≤ (readAll firstId ps).2 ∧
      Fresh firstId (readAll firstId ps).2 (readAll firstId ps).1 := by
  induction ps generalizing firstId with
  | nil => exact ⟨Nat.le_refl _, .nil⟩
  | cons p ps ih =>
    obtain ⟨hle, hfresh⟩ := p.fresh_read firstId
    obtain ⟨hle', hfresh'⟩ := ih (p.read firstId).2
    exact ⟨Nat.le_trans hle hle', hfresh.append hfresh' hle hle'⟩

end Parsing

/-- Identities do not collide in 64 bits either, unless these are used up. -/
theorem Fresh.nodup_uint64 {a b : Nat} {ids : List Nat} (h : Fresh a b ids)
    (hroom : b - a ≤ UInt64.size) : (ids.map UInt64.ofNat).Nodup := by
  refine List.Nodup.map_on (fun i hi j hj heq => ?_) h.nodup
  have hmod : i % UInt64.size = j % UInt64.size := congrArg UInt64.toNat heq
  have hi := h.range i hi
  have hj := h.range j hj
  unfold UInt64.size at hroom hmod
  omega

end Lox
