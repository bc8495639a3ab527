import Lox.Grammar.Expression

namespace Lox.Grammar

/-- `for (start; condition; step) body` as a `while` loop. The start is in a scope of its own,
and the step follows the body of every round. -/
def forLoop (start : Option Stmt) (condition : Option Expr) (step : Option Expr) (body : Stmt) :
    Stmt :=
  let round := match step with
    | some step => .block [body, .expression step]
    | none => body
  let loop := .while (condition.getD (.literal .true)) round
  match start with
  | some start => .block [start, loop]
  | none => loop

/-- An expression, unless the token that ends it comes at once. -/
def optionalExpression (inner : Inner) (close : Kind) : Parse (Option Expr) := do
  if (← kind) = close then
    return none
  else
    return some (← expression inner)

def varDeclaration (inner : Inner) : Parse Stmt := do
  let name ← expect .identifier "variable name"
  let initializer ← if (← accept .equal) then some <$> expression inner else pure none
  let _ ← expect .semicolon "';' after variable declaration"
  return .var name initializer

def expressionStatement (inner : Inner) : Parse Stmt := do
  let expr ← expression inner
  let _ ← expect .semicolon "';' after expression"
  return .expression expr

def printStatement (inner : Inner) : Parse Stmt := do
  let expr ← expression inner
  let _ ← expect .semicolon "';' after value"
  return .print expr

def returnStatement (inner : Inner) (keyword : Token) : Parse Stmt := do
  let value ← optionalExpression inner .semicolon
  let _ ← expect .semicolon "';' after return value"
  return .return keyword value

def breakStatement (keyword : Token) : Parse Stmt := do
  if (← get).loops = 0 then
    halt keyword.line .breakOutsideLoop
  let _ ← expect .semicolon "';' after 'break'"
  return .break keyword

def loopBody (inner : Inner) : Parse Stmt := withinLoop inner.statement

def whileStatement (inner : Inner) : Parse Stmt := do
  let _ ← expect .leftParen "'(' after 'while'"
  let condition ← expression inner
  let _ ← expect .rightParen "')' after condition"
  return .while condition (← loopBody inner)

def forStart (inner : Inner) : Parse (Option Stmt) := do
  if (← accept .semicolon) then
    return none
  else if (← accept .var) then
    return some (← varDeclaration inner)
  else
    return some (← expressionStatement inner)

def forStatement (inner : Inner) : Parse Stmt := do
  let _ ← expect .leftParen "'(' after 'for'"
  let start ← forStart inner
  let condition ← optionalExpression inner .semicolon
  let _ ← expect .semicolon "';' after loop condition"
  let step ← optionalExpression inner .rightParen
  let _ ← expect .rightParen "')' after for clauses"
  return forLoop start condition step (← loopBody inner)

/-- An `else` belongs to the nearest `if`. -/
def ifStatement (inner : Inner) : Parse Stmt := do
  let _ ← expect .leftParen "'(' after 'if'"
  let condition ← expression inner
  let _ ← expect .rightParen "')' after if condition"
  let thenBranch ← inner.statement
  let elseBranch ← if (← accept .else) then some <$> inner.statement else pure none
  return .ifElse condition thenBranch elseBranch

def statement (inner : Inner) : Parse Stmt := do
  let t ← head
  match t.kind with
  | .for => advance; forStatement inner
  | .if => advance; ifStatement inner
  | .while => advance; whileStatement inner
  | .break => advance; breakStatement t
  | .return => advance; returnStatement inner t
  | .leftBrace => advance; .block <$> block inner
  | .print => advance; printStatement inner
  | _ => expressionStatement inner

def classDeclaration (inner : Inner) : Parse Stmt := do
  let name ← expect .identifier "class name"
  let superclass ←
    if (← accept .less) then
      let name ← expect .identifier "superclass name"
      pure (some (.variable (← mint) name))
    else
      pure none
  let _ ← expect .leftBrace "'\x7b' before class body"
  let methods ← many (fun _ => do
    let k ← kind
    if k = .rightBrace ∨ k = .eof then
      return none
    return some (← method inner .method)) 0
  let _ ← expect .rightBrace "'\x7d' after class body"
  return .class name superclass methods

/-- A `fun` with a name after it declares; without one it is an expression. -/
def declaresFunction : List Token → Bool
  | first :: second :: _ => first.kind = .fun && second.kind = .identifier
  | _ => false

/-- One declaration or statement, or nothing after a fault. -/
def declaration (inner : Inner) : Parse (Option Stmt) := recover do
  if declaresFunction (← get).rest then
    advance
    return .function (← method inner .function)
  else if (← accept .class) then
    classDeclaration inner
  else if (← accept .var) then
    varDeclaration inner
  else
    statement inner

/-- The productions at which `n` further levels of nesting may be entered. -/
def Inner.ofDepth : Nat → Inner
  | 0 => ⟨throw .exhausted, throw .exhausted, throw .exhausted⟩
  | n + 1 =>
    let inner := Inner.ofDepth n
    ⟨Grammar.expression inner, Grammar.statement inner, Grammar.declaration inner⟩

end Lox.Grammar
