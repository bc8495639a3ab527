import Lox.Grammar.Function

namespace Lox.Grammar

def primary (inner : Inner) : Parse Expr := do
  let t ← head
  match t.kind with
  | .false => advance; return .literal .false
  | .true => advance; return .literal .true
  | .nil => advance; return .literal .nil
  | .number value => advance; return .literal (.number value)
  | .string text => advance; return .literal (.string text)
  | .super => do
    advance
    let _ ← expect .dot "'.' after 'super'"
    let method ← expect .identifier "superclass method name"
    return .super (← mint) t method
  | .this => advance; return .this (← mint) t
  | .identifier => advance; return .variable (← mint) t
  | .fun => advance; return .function (← function inner .function)
  | .leftParen => do
    advance
    let expr ← inner.expression
    let _ ← expect .rightParen "')' after expression"
    return .grouping expr
  | _ => haltHere (.expected "expression")

/-- Calls and properties, from left to right. -/
def call (inner : Inner) : Parse Expr := do
  extend (fun expr => do
    if (← accept .leftParen) then
      let arguments ← commaList .tooManyArguments inner.expression
      let paren ← expect .rightParen "')' after arguments"
      return some (.call expr paren arguments)
    else if (← accept .dot) then
      let name ← expect .identifier "property name after '.'"
      return some (.get expr name)
    else
      return none) (← primary inner)

/-- Operators that need something on their left. -/
def isBinaryOnly : Kind → Bool
  | .plus | .star | .slash | .equalEqual | .bangEqual => true
  | .greater | .greaterEqual | .less | .lessEqual => true
  | _ => false

def sign? : Parse (Option Token) := do
  match ← accept? .bang with
  | some t => return some t
  | none => accept? .minus

def unary (inner : Inner) : Parse Expr := do
  let signs ← many (fun _ => sign?) 0
  if isBinaryOnly (← kind) then
    haltHere .missingLeftOperand
  let operand ← call inner
  return signs.foldr .unary operand

/-- Operands with operators between them, grouped to the left. -/
def leftAssociative (isOperator : Kind → Bool) (node : Expr → Token → Expr → Expr)
    (operand : Parse Expr) : Parse Expr := do
  extend (fun left => do
    let operator ← head
    if isOperator operator.kind then
      advance
      return some (node left operator (← operand))
    else
      return none) (← operand)

def isFactorOperator : Kind → Bool
  | .slash | .star => true
  | _ => false

def isTermOperator : Kind → Bool
  | .minus | .plus => true
  | _ => false

def isComparison : Kind → Bool
  | .greater | .greaterEqual | .less | .lessEqual => true
  | _ => false

def isEquality : Kind → Bool
  | .bangEqual | .equalEqual => true
  | _ => false

def factor (inner : Inner) : Parse Expr := leftAssociative isFactorOperator .binary (unary inner)

def term (inner : Inner) : Parse Expr := leftAssociative isTermOperator .binary (factor inner)

def comparison (inner : Inner) : Parse Expr := leftAssociative isComparison .binary (term inner)

def equality (inner : Inner) : Parse Expr := leftAssociative isEquality .binary (comparison inner)

def conjunction (inner : Inner) : Parse Expr :=
  leftAssociative (· = .and) .logical (equality inner)

def disjunction (inner : Inner) : Parse Expr :=
  leftAssociative (· = .or) .logical (conjunction inner)

/-- Assigns `value` to what `target` names. A target that names nothing stays as it is. -/
def assignTo (target : Expr) (equals : Token) (value : Expr) : Parse Expr := do
  match target with
  | .variable _ name => return .assign (← mint) name value
  | .get object name => return .set object name value
  | _ =>
    record equals.line .invalidTarget
    return target

/-- Assignment groups to the right. -/
def expression (inner : Inner) : Parse Expr := do
  let target ← disjunction inner
  match ← accept? .equal with
  | none => return target
  | some equals => assignTo target equals (← inner.expression)

end Lox.Grammar
