import Lox.Grammar.Statement
import Lox.Token.Scan

namespace Lox

/-- What reading yields, and the first identity that no node has taken. -/
structure Reading (α : Type) where
  result : Except (List Diagnostic) α
  nextId : Nat

namespace Grammar

/-- Declarations up to the end of input. -/
def program (inner : Inner) : Parse (List Stmt) := do
  let declarations ← many (fun _ => do
    if (← kind) = .eof then
      return none
    return some (← inner.declaration)) 0
  return declarations.filterMap id

/-- An expression that nothing follows. -/
def wholeExpression (inner : Inner) : Parse Expr := do
  let expr ← inner.expression
  let t ← head
  if t.kind ≠ .eof then
    record t.line (.expected "end of expression")
  return expr

/-- Nesting takes a token a level, so the allowance suffices for any list. -/
def read (production : Inner → Parse α) (ts : List Token) (firstId : Nat) : Reading α :=
  match production (Inner.ofDepth (ts.length + 1)) ⟨ts, 0, [], firstId⟩ with
  | .ok a c => ⟨if c.faults.isEmpty then .ok a else .error c.faults, c.nextId⟩
  | .error (.fault d) c => ⟨.error (c.faults ++ [d]), c.nextId⟩
  | .error .exhausted c => ⟨.error c.faults, c.nextId⟩

/-- Reads the tokens of a source even if it has lexical faults, so that all are reported. -/
def readSource (production : Inner → Parse α) (source : String) (firstId : Nat) : Reading α :=
  let items := scan source
  let reading := read production (tokens items) firstId
  match faults items, reading.result with
  | [], _ => reading
  | ds, .ok _ => ⟨.error ds, reading.nextId⟩
  | ds, .error more => ⟨.error (ds ++ more), reading.nextId⟩

end Grammar

def readProgram (source : String) (firstId : Nat) : Reading (List Stmt) :=
  Grammar.readSource Grammar.program source firstId

def readExpression (source : String) (firstId : Nat) : Reading Expr :=
  Grammar.readSource Grammar.wholeExpression source firstId

end Lox
