import Lox.Json
import Lox.Tree

namespace Lox

def Kind.document : Kind → Json
  | .string text => .object [("STRING", .string text)]
  | .number value => .object [("NUMBER", .number value)]
  | kind => .string kind.name

def Token.document (t : Token) : Json :=
  .object [("token_type", t.kind.document), ("lexeme", .string t.lexeme), ("line", .natural t.line)]

def Literal.document : Literal → Json
  | .number value => .object [("Number", .number value)]
  | .string text => .object [("Str", .string text)]
  | .true => .string "True"
  | .false => .string "False"
  | .nil => .string "Nil"

mutual

/-- A choice with content is an object of one field, named for the choice. -/
def Expr.document : Expr → Json
  | .literal value => .object [("Literal", value.document)]
  | .grouping inner => .object [("Grouping", inner.document)]
  | .unary operator right =>
    .object [("Unary", .object [("operator", operator.document), ("right", right.document)])]
  | .binary left operator right =>
    .object [("Binary", .object [("left", left.document), ("operator", operator.document),
      ("right", right.document)])]
  | .logical left operator right =>
    .object [("Logical", .object [("left", left.document), ("operator", operator.document),
      ("right", right.document)])]
  | .variable id name =>
    .object [("Variable", .object [("id", .natural id), ("name", name.document)])]
  | .assign id name value =>
    .object [("Assign", .object [("id", .natural id), ("name", name.document),
      ("value", value.document)])]
  | .call callee paren arguments =>
    .object [("Call", .object [("callee", callee.document), ("paren", paren.document),
      ("arguments", .array (argumentDocuments arguments))])]
  | .get object name =>
    .object [("Get", .object [("object", object.document), ("name", name.document)])]
  | .set object name value =>
    .object [("Set", .object [("object", object.document), ("name", name.document),
      ("value", value.document)])]
  | .this id keyword =>
    .object [("This", .object [("id", .natural id), ("keyword", keyword.document)])]
  | .super id keyword method =>
    .object [("Super", .object [("id", .natural id), ("keyword", keyword.document),
      ("method", method.document)])]
  | .function function => .object [("Function", function.document)]

def argumentDocuments : List Expr → List Json
  | [] => []
  | argument :: arguments => argument.document :: argumentDocuments arguments

def Function.document : Function → Json
  | ⟨params, body⟩ =>
    .object [("params", .array (params.map Token.document)),
      ("body", .array (statementDocuments body))]

def Method.document : Method → Json
  | ⟨name, function⟩ => .object [("name", name.document), ("function", function.document)]

def Stmt.document : Stmt → Json
  | .expression expr => .object [("Expression", expr.document)]
  | .print expr => .object [("Print", expr.document)]
  | .var name none =>
    .object [("Var", .object [("name", name.document), ("initializer", .null)])]
  | .var name (some value) =>
    .object [("Var", .object [("name", name.document), ("initializer", value.document)])]
  | .block statements => .object [("Block", .array (statementDocuments statements))]
  | .ifElse condition thenBranch none =>
    .object [("If", .object [("condition", condition.document),
      ("then_branch", thenBranch.document), ("else_branch", .null)])]
  | .ifElse condition thenBranch (some elseBranch) =>
    .object [("If", .object [("condition", condition.document),
      ("then_branch", thenBranch.document), ("else_branch", elseBranch.document)])]
  | .while condition body =>
    .object [("While", .object [("condition", condition.document), ("body", body.document)])]
  | .break keyword => .object [("Break", keyword.document)]
  | .return keyword none =>
    .object [("Return", .object [("keyword", keyword.document), ("value", .null)])]
  | .return keyword (some value) =>
    .object [("Return", .object [("keyword", keyword.document), ("value", value.document)])]
  | .function declaration => .object [("Function", declaration.document)]
  | .class name none methods =>
    .object [("Class", .object [("name", name.document), ("superclass", .null),
      ("methods", .array (methodDocuments methods))])]
  | .class name (some superclass) methods =>
    .object [("Class", .object [("name", name.document), ("superclass", superclass.document),
      ("methods", .array (methodDocuments methods))])]

def statementDocuments : List Stmt → List Json
  | [] => []
  | statement :: statements => statement.document :: statementDocuments statements

def methodDocuments : List Method → List Json
  | [] => []
  | method :: methods => method.document :: methodDocuments methods

end

end Lox
