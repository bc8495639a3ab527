import Lox.Tree.Symbolic

namespace Lox

def Literal.source : Literal → String
  | .number value => Numeral.plain value
  | .string text => "\"" ++ text ++ "\""
  | .true => "true"
  | .false => "false"
  | .nil => "nil"

mutual

/-- Only a grouping writes parentheses. -/
def Expr.source : Expr → String
  | .literal value => value.source
  | .grouping inner => "(" ++ inner.source ++ ")"
  | .unary operator right => operator.lexeme ++ right.source
  | .binary left operator right => left.source ++ " " ++ operator.lexeme ++ " " ++ right.source
  | .logical left operator right => left.source ++ " " ++ operator.lexeme ++ " " ++ right.source
  | .variable _ name => name.lexeme
  | .assign _ name value => name.lexeme ++ " = " ++ value.source
  | .call callee _ arguments => callee.source ++ "(" ++ sourceArguments arguments ++ ")"
  | .get object name => object.source ++ "." ++ name.lexeme
  | .set object name value => object.source ++ "." ++ name.lexeme ++ " = " ++ value.source
  | .this _ _ => "this"
  | .super _ _ method => "super." ++ method.lexeme
  | .function function => "fun " ++ function.source

/-- The arguments of a call, separated by commas. -/
def sourceArguments : List Expr → String
  | [] => ""
  | [argument] => argument.source
  | argument :: arguments => argument.source ++ ", " ++ sourceArguments arguments

def Function.source : Function → String
  | ⟨params, body⟩ => "(" ++ parameterList params ++ ") " ++ "\x7b " ++ sourceStatements body ++ " \x7d"

def Method.source : Method → String
  | ⟨name, function⟩ => name.lexeme ++ function.source

def Stmt.source : Stmt → String
  | .expression expr => expr.source ++ ";"
  | .print expr => "print " ++ expr.source ++ ";"
  | .var name none => "var " ++ name.lexeme ++ ";"
  | .var name (some value) => "var " ++ name.lexeme ++ " = " ++ value.source ++ ";"
  | .block statements => "\x7b " ++ sourceStatements statements ++ " \x7d"
  | .ifElse condition thenBranch none =>
    "if (" ++ condition.source ++ ") " ++ thenBranch.source
  | .ifElse condition thenBranch (some elseBranch) =>
    "if (" ++ condition.source ++ ") " ++ thenBranch.source ++ " else " ++ elseBranch.source
  | .while condition body => "while (" ++ condition.source ++ ") " ++ body.source
  | .break _ => "break;"
  | .return _ none => "return;"
  | .return _ (some value) => "return " ++ value.source ++ ";"
  | .function declaration => "fun " ++ declaration.source
  | .class name none methods => "class " ++ name.lexeme ++ " \x7b" ++ sourceMethods methods ++ " \x7d"
  | .class name (some superclass) methods =>
    "class " ++ name.lexeme ++ " < " ++ superclass.source ++ " \x7b" ++ sourceMethods methods ++ " \x7d"

/-- Statements, separated by spaces. -/
def sourceStatements : List Stmt → String
  | [] => ""
  | [statement] => statement.source
  | statement :: statements => statement.source ++ " " ++ sourceStatements statements

/-- Every method after a space. -/
def sourceMethods : List Method → String
  | [] => ""
  | method :: methods => " " ++ method.source ++ sourceMethods methods

end

end Lox
