import Lox.Tree

namespace Lox

def Literal.symbolic : Literal → String
  | .number value => Numeral.literal value
  | .string text => text
  | .true => "true"
  | .false => "false"
  | .nil => "nil"

/-- The parameters of a function, separated by commas. -/
def parameterList (params : List Token) : String := ", ".intercalate (params.map Token.lexeme)

mutual

/-- Every node is a list in parentheses with its operator first. -/
def Expr.symbolic : Expr → String
  | .literal value => value.symbolic
  | .grouping inner => "(group " ++ inner.symbolic ++ ")"
  | .unary operator right => "(" ++ operator.lexeme ++ " " ++ right.symbolic ++ ")"
  | .binary left operator right =>
    "(" ++ operator.lexeme ++ " " ++ left.symbolic ++ " " ++ right.symbolic ++ ")"
  | .logical left operator right =>
    "(" ++ operator.lexeme ++ " " ++ left.symbolic ++ " " ++ right.symbolic ++ ")"
  | .variable _ name => name.lexeme
  | .assign _ name value => "(= " ++ name.lexeme ++ " " ++ value.symbolic ++ ")"
  | .call callee _ arguments => "(call " ++ callee.symbolic ++ symbolicArguments arguments ++ ")"
  | .get object name => "(. " ++ object.symbolic ++ " " ++ name.lexeme ++ ")"
  | .set object name value =>
    "(= (. " ++ object.symbolic ++ " " ++ name.lexeme ++ ") " ++ value.symbolic ++ ")"
  | .this _ _ => "this"
  | .super _ _ method => "(super " ++ method.lexeme ++ ")"
  | .function function => "(fun " ++ function.symbolic ++ ")"

/-- Every argument after a space. -/
def symbolicArguments : List Expr → String
  | [] => ""
  | argument :: arguments => " " ++ argument.symbolic ++ symbolicArguments arguments

def Function.symbolic : Function → String
  | ⟨params, body⟩ => "(" ++ parameterList params ++ ") (block" ++ symbolicStatements body ++ ")"

def Method.symbolic : Method → String
  | ⟨name, function⟩ => name.lexeme ++ " " ++ function.symbolic

def Stmt.symbolic : Stmt → String
  | .expression expr => "(; " ++ expr.symbolic ++ ")"
  | .print expr => "(print " ++ expr.symbolic ++ ")"
  | .var name none => "(var " ++ name.lexeme ++ ")"
  | .var name (some value) => "(var " ++ name.lexeme ++ " " ++ value.symbolic ++ ")"
  | .block statements => "(block" ++ symbolicStatements statements ++ ")"
  | .ifElse condition thenBranch none =>
    "(if " ++ condition.symbolic ++ " " ++ thenBranch.symbolic ++ ")"
  | .ifElse condition thenBranch (some elseBranch) =>
    "(if " ++ condition.symbolic ++ " " ++ thenBranch.symbolic ++ " " ++ elseBranch.symbolic ++ ")"
  | .while condition body => "(while " ++ condition.symbolic ++ " " ++ body.symbolic ++ ")"
  | .break _ => "(break)"
  | .return _ none => "(return)"
  | .return _ (some value) => "(return " ++ value.symbolic ++ ")"
  | .function declaration => "(fun " ++ declaration.symbolic ++ ")"
  | .class name none methods => "(class " ++ name.lexeme ++ symbolicMethods methods ++ ")"
  | .class name (some superclass) methods =>
    "(class " ++ name.lexeme ++ " < " ++ superclass.symbolic ++ symbolicMethods methods ++ ")"

/-- Every statement after a space. -/
def symbolicStatements : List Stmt → String
  | [] => ""
  | statement :: statements => " " ++ statement.symbolic ++ symbolicStatements statements

/-- Every method in its own list, after a space. -/
def symbolicMethods : List Method → String
  | [] => ""
  | method :: methods => " (method " ++ method.symbolic ++ ")" ++ symbolicMethods methods

end

end Lox
