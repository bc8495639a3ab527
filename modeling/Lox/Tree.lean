import Lox.Token

namespace Lox

inductive Literal where
  | number (value : Float)
  | string (text : String)
  | true
  | false
  | nil
deriving DecidableEq

mutual

/-- A node that names something a scope may hold has an identity, under which its address is
recorded. -/
inductive Expr where
  | literal (value : Literal)
  | grouping (inner : Expr)
  | unary (operator : Token) (right : Expr)
  | binary (left : Expr) (operator : Token) (right : Expr)
  | logical (left : Expr) (operator : Token) (right : Expr)
  | variable (id : Nat) (name : Token)
  | assign (id : Nat) (name : Token) (value : Expr)
  | call (callee : Expr) (paren : Token) (arguments : List Expr)
  | get (object : Expr) (name : Token)
  | set (object : Expr) (name : Token) (value : Expr)
  | this (id : Nat) (keyword : Token)
  | super (id : Nat) (keyword : Token) (method : Token)
  | function (function : Function)

/-- Parameters and body, without a name. -/
structure Function where
  params : List Token
  body : List Stmt

/-- A function declaration or a method. -/
structure Method where
  name : Token
  function : Function

inductive Stmt where
  | expression (expr : Expr)
  | print (expr : Expr)
  | var (name : Token) (initializer : Option Expr)
  | block (statements : List Stmt)
  | ifElse (condition : Expr) (thenBranch : Stmt) (elseBranch : Option Stmt)
  | while (condition : Expr) (body : Stmt)
  | break (keyword : Token)
  | return (keyword : Token) (value : Option Expr)
  | function (declaration : Method)
  | class (name : Token) (superclass : Option Expr) (methods : List Method)

end

mutual

/-- The line an expression is reported on; a literal has none. -/
def Expr.line : Expr → Nat
  | .literal _ => 0
  | .grouping inner => inner.line
  | .unary operator _ => operator.line
  | .binary _ operator _ => operator.line
  | .logical _ operator _ => operator.line
  | .variable _ name => name.line
  | .assign _ name _ => name.line
  | .call _ paren _ => paren.line
  | .get _ name => name.line
  | .set _ name _ => name.line
  | .this _ keyword => keyword.line
  | .super _ keyword _ => keyword.line
  | .function ⟨param :: _, _⟩ => param.line
  | .function ⟨[], statement :: _⟩ => statement.line
  | .function ⟨[], []⟩ => 0

def Stmt.line : Stmt → Nat
  | .expression expr => expr.line
  | .print expr => expr.line
  | .var name _ => name.line
  | .block (statement :: _) => statement.line
  | .block [] => 0
  | .ifElse condition _ _ => condition.line
  | .while condition _ => condition.line
  | .break keyword => keyword.line
  | .return keyword _ => keyword.line
  | .function declaration => declaration.name.line
  | .class name _ _ => name.line

end

end Lox
