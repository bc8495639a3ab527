import Lox.Scope
import Lox.Tree

namespace Lox

/-- A name and the one in its place, and what is known of nodes: the addresses of the locals that
they name. -/
structure Renaming where
  old : String
  new : String
  notes : List (Nat × Address)

/-- Where a local is, from some point of a tree. -/
inductive Aim where
  /-- In the scope to which a path of children leads, and there behind so many declarations. -/
  | ahead (path : List Nat) (slot : Nat)
  /-- In the scope at hand, of which so many declarations have been passed, behind so many more. -/
  | coming (passed left : Nat)
  /-- At an address: its declaration has been passed. -/
  | declared (a : Address)
  /-- Out of sight. -/
  | gone

namespace Aim

/-- From a child of the point. -/
def child (i : Nat) : Aim → Aim
  | .ahead [] _ => .gone
  | .ahead (j :: path) slot => if i = j then .ahead path slot else .gone
  | aim => aim

/-- From inside of a scope that cannot be its own. -/
def pass : Aim → Aim
  | .coming _ _ => .gone
  | .declared a => .declared a.outward
  | aim => aim

/-- From inside of a block or a function. -/
def enter : Aim → Aim
  | .ahead [] slot => .coming 0 slot
  | aim => aim.pass

/-- From behind the declaration of something else. -/
def skip : Aim → Aim
  | .coming _ 0 => .gone
  | .coming passed (left + 1) => .coming (passed + 1) left
  | aim => aim

theorem child_ahead (i j : Nat) (path : List Nat) (slot : Nat) :
    (Aim.ahead (j :: path) slot).child i = if i = j then .ahead path slot else .gone := rfl

end Aim

namespace Renaming

variable (R : Renaming)

def respell (t : Token) : Token := if t.lexeme = R.old then { t with lexeme := R.new } else t

/-- The name of a variable or a parameter that is declared. -/
def declared (t : Token) : Aim → Token
  | .coming _ 0 => R.respell t
  | _ => t

/-- From behind the declaration of a variable or a parameter. -/
def past (t : Token) : Aim → Aim
  | .coming passed 0 => if t.lexeme = R.old then .declared ⟨0, passed⟩ else .gone
  | aim => aim.skip

/-- The name at a node that reads or assigns a variable. -/
def used (id : Nat) (t : Token) : Aim → Token
  | .declared a => if (id, a) ∈ R.notes then R.respell t else t
  | _ => t

/-- From behind a statement. -/
def after : Stmt → Aim → Aim
  | .var t _, aim => R.past t aim
  | .function _, aim => aim.skip
  | .class _ _ _, aim => aim.skip
  | _, aim => aim

def params : List Token → Aim → List Token
  | [], _ => []
  | t :: ts, aim => R.declared t aim :: params ts (R.past t aim)

def pastAll (ts : List Token) (aim : Aim) : Aim := ts.foldl (fun aim t => R.past t aim) aim

theorem past_coming (t : Token) (passed : Nat) : R.past t (.coming passed 0) =
    if t.lexeme = R.old then .declared ⟨0, passed⟩ else .gone := rfl

theorem used_declared (id : Nat) (t : Token) (a : Address) : R.used id t (.declared a) =
    if (id, a) ∈ R.notes then R.respell t else t := rfl

end Renaming

mutual

def Expr.rename (R : Renaming) (aim : Aim) : Expr → Expr
  | .literal value => .literal value
  | .grouping inner => .grouping (inner.rename R (aim.child 0))
  | .unary operator right => .unary operator (right.rename R (aim.child 0))
  | .binary left operator right =>
    .binary (left.rename R (aim.child 0)) operator (right.rename R (aim.child 1))
  | .logical left operator right =>
    .logical (left.rename R (aim.child 0)) operator (right.rename R (aim.child 1))
  | .variable id name => .variable id (R.used id name aim)
  | .assign id name value => .assign id (R.used id name aim) (value.rename R (aim.child 0))
  | .call callee paren arguments =>
    .call (callee.rename R (aim.child 0)) paren (renameAll R (aim.child 1) arguments)
  | .get object name => .get (object.rename R (aim.child 0)) name
  | .set object name value =>
    .set (object.rename R (aim.child 0)) name (value.rename R (aim.child 1))
  | .this id keyword => .this id keyword
  | .super id keyword method => .super id keyword method
  | .function function => .function (function.rename R (aim.child 0))

def renameAll (R : Renaming) (aim : Aim) : List Expr → List Expr
  | [] => []
  | e :: es => e.rename R (aim.child 0) :: renameAll R (aim.child 1) es

/-- Parameters and body are in one scope. -/
def Function.rename (R : Renaming) (aim : Aim) : Function → Function
  | ⟨params, body⟩ =>
    ⟨R.params params aim.enter, renameStatements R (R.pastAll params aim.enter) body⟩

/-- A variable is in sight from its own initializer. -/
def Stmt.rename (R : Renaming) (aim : Aim) : Stmt → Stmt
  | .expression expr => .expression (expr.rename R (aim.child 0))
  | .print expr => .print (expr.rename R (aim.child 0))
  | .var name none => .var (R.declared name aim) none
  | .var name (some value) =>
    .var (R.declared name aim) (some (value.rename R ((R.past name aim).child 0)))
  | .block statements => .block (renameStatements R aim.enter statements)
  | .ifElse condition thenBranch none =>
    .ifElse (condition.rename R (aim.child 0)) (thenBranch.rename R (aim.child 1)) none
  | .ifElse condition thenBranch (some elseBranch) =>
    .ifElse (condition.rename R (aim.child 0)) (thenBranch.rename R (aim.child 1))
      (some (elseBranch.rename R (aim.child 2)))
  | .while condition body =>
    .while (condition.rename R (aim.child 0)) (body.rename R (aim.child 1))
  | .break keyword => .break keyword
  | .return keyword none => .return keyword none
  | .return keyword (some value) => .return keyword (some (value.rename R (aim.child 0)))
  | .function ⟨name, function⟩ => .function ⟨name, function.rename R (aim.skip.child 0)⟩
  | .class name none methods => .class name none (renameMethods R (aim.skip.pass.child 0) methods)
  | .class name (some superclass) methods =>
    .class name (some (superclass.rename R (aim.skip.child 0)))
      (renameMethods R (aim.skip.pass.pass.child 1) methods)

def renameStatements (R : Renaming) (aim : Aim) : List Stmt → List Stmt
  | [] => []
  | s :: ss => s.rename R (aim.child 0) :: renameStatements R (R.after s (aim.child 1)) ss

def renameMethods (R : Renaming) (aim : Aim) : List Method → List Method
  | [] => []
  | ⟨name, function⟩ :: ms =>
    ⟨name, function.rename R (aim.child 0)⟩ :: renameMethods R (aim.child 1) ms

end

end Lox
