import Lox.Scope.Resolution

namespace Lox

/-- Resolves programs one after another. -/
structure Resolver where
  lint : Lint
  /-- The open scopes, innermost first; none is open at top level. -/
  scopes : List Scope
  inFunction : FunctionContext
  inClass : ClassContext
  addresses : Array (Nat × Address)
  errors : Array Diagnostic
  warnings : Array Diagnostic

namespace Resolver

def new (lint : Lint) : Resolver := ⟨lint, [], .none, .none, #[], #[], #[]⟩

def misuse (r : Resolver) (line : Nat) (fault : ScopeFault) : Resolver :=
  { r with errors := r.errors.push ⟨line, .scope fault⟩ }

def unread (r : Resolver) (d : Diagnostic) : Resolver :=
  match r.lint with
  | .allow => r
  | .warn => { r with warnings := r.warnings.push d }
  | .deny => { r with errors := r.errors.push d }

def enter (r : Resolver) (s : Scope) : Resolver := { r with scopes := s :: r.scopes }

/-- Closes the innermost scope and reports what was not read in it, unless that is allowed. -/
def leave (r : Resolver) : Resolver :=
  match r.scopes with
  | [] => r
  | s :: outer =>
    let r := { r with scopes := outer }
    if r.lint = .allow then r else s.unread.foldl unread r

/-- A second declaration of a name in a scope is a misuse and declares nothing. -/
def declare (r : Resolver) (name : Token) : Resolver :=
  match r.scopes with
  | [] => r
  | s :: outer =>
    match s.slot? name.lexeme with
    | some _ => r.misuse name.line .declaredTwice
    | none => { r with scopes := s.declare name.lexeme name.line :: outer }

def define (r : Resolver) (name : Token) : Resolver :=
  match r.scopes with
  | [] => r
  | s :: outer => { r with scopes := s.define name.lexeme :: outer }

def introduce (r : Resolver) (name : Token) : Resolver := (r.declare name).define name

/-- Are we in the initializer of the innermost local of this name? -/
def isPending (r : Resolver) (name : Token) : Bool :=
  match r.scopes with
  | [] => false
  | s :: _ => s.isPending name.lexeme

def record (r : Resolver) (id : Nat) (a : Address) : Resolver :=
  { r with addresses := r.addresses.push (id, a) }

/-- A reference to a name, which may count as a use; a name that no open scope holds is global and
is not recorded. -/
def refer (r : Resolver) (id : Nat) (name : Token) (uses : Bool) : Resolver :=
  match Scope.address? r.scopes name.lexeme with
  | none => r
  | some a => { r with scopes := if uses then Scope.useAt r.scopes a else r.scopes }.record id a

def readVariable (r : Resolver) (id : Nat) (name : Token) : Resolver :=
  (if r.isPending name then r.misuse name.line .readInOwnInitializer else r).refer id name true

def assignVariable (r : Resolver) (id : Nat) (name : Token) : Resolver :=
  (if r.isPending name then r.misuse name.line .assignedInOwnInitializer else r).refer id name false

def readThis (r : Resolver) (id : Nat) (keyword : Token) : Resolver :=
  match r.inClass with
  | .none => r.misuse keyword.line .thisOutsideClass
  | _ => r.refer id keyword true

def readSuper (r : Resolver) (id : Nat) (keyword : Token) : Resolver :=
  match r.inClass with
  | .none => r.misuse keyword.line .superOutsideClass
  | .base => r.misuse keyword.line .superWithoutSuperclass
  | .subclass => r.refer id keyword true

def leaveFunction (r : Resolver) (keyword : Token) : Resolver :=
  if r.inFunction = .none then r.misuse keyword.line .returnOutsideFunction else r

def returnValue (r : Resolver) (keyword : Token) : Resolver :=
  if r.inFunction = .initializer then r.misuse keyword.line .valueFromInitializer else r

def checkSuperclass (r : Resolver) (name : Token) (superclass : Expr) : Resolver :=
  match inheritsFrom name superclass with
  | some t => r.misuse t.line .inheritsFromItself
  | none => r

end Resolver

mutual

def Expr.resolve (r : Resolver) : Expr → Resolver
  | .literal _ => r
  | .grouping inner => inner.resolve r
  | .unary _ right => right.resolve r
  | .binary left _ right => right.resolve (left.resolve r)
  | .logical left _ right => right.resolve (left.resolve r)
  | .variable id name => r.readVariable id name
  | .assign id name value => (value.resolve r).assignVariable id name
  | .call callee _ arguments => resolveArguments (callee.resolve r) arguments
  | .get object _ => object.resolve r
  | .set object _ value => object.resolve (value.resolve r)
  | .this id keyword => r.readThis id keyword
  | .super id keyword _ => r.readSuper id keyword
  | .function function => function.resolve .function r

def resolveArguments (r : Resolver) : List Expr → Resolver
  | [] => r
  | argument :: arguments => resolveArguments (argument.resolve r) arguments

/-- Parameters and body are in one scope. -/
def Function.resolve (kind : FunctionContext) (r : Resolver) : Function → Resolver
  | ⟨params, body⟩ =>
    let inside := { r with inFunction := kind }.enter []
    { (resolveStatements (params.foldl Resolver.introduce inside) body).leave with
      inFunction := r.inFunction }

def Stmt.resolve (r : Resolver) : Stmt → Resolver
  | .expression expr => expr.resolve r
  | .print expr => expr.resolve r
  | .var name none => r.introduce name
  | .var name (some value) => (value.resolve (r.declare name)).define name
  | .block statements => (resolveStatements (r.enter []) statements).leave
  | .ifElse condition thenBranch none => thenBranch.resolve (condition.resolve r)
  | .ifElse condition thenBranch (some elseBranch) =>
    elseBranch.resolve (thenBranch.resolve (condition.resolve r))
  | .while condition body => body.resolve (condition.resolve r)
  | .break _ => r
  | .return keyword none => r.leaveFunction keyword
  | .return keyword (some value) => value.resolve ((r.leaveFunction keyword).returnValue keyword)
  | .function ⟨name, function⟩ => function.resolve .function (r.introduce name)
  | .class name none methods =>
    let inside := { r with inClass := .base }.introduce name
    { (resolveMethods (inside.enter (Scope.implicit "this" name.line)) methods).leave with
      inClass := r.inClass }
  | .class name (some superclass) methods =>
    let inside := ({ r with inClass := .base }.introduce name).checkSuperclass name superclass
    let inside := superclass.resolve { inside with inClass := .subclass }
    let inside := (inside.enter (Scope.implicit "super" name.line)).enter
      (Scope.implicit "this" name.line)
    { (resolveMethods inside methods).leave.leave with inClass := r.inClass }

def resolveStatements (r : Resolver) : List Stmt → Resolver
  | [] => r
  | statement :: statements => resolveStatements (statement.resolve r) statements

def resolveMethods (r : Resolver) : List Method → Resolver
  | [] => r
  | ⟨name, function⟩ :: methods =>
    resolveMethods (function.resolve (methodContext name) r) methods

end

namespace Resolver

/-- The verdict on a program that has been passed; the registers that hold it are emptied. -/
def drain (r : Resolver) : Except (List Diagnostic) Resolution × Resolver :=
  (if r.errors.isEmpty then .ok ⟨r.addresses.toList, r.warnings.toList⟩
    else .error r.errors.toList,
    { r with addresses := #[], errors := #[], warnings := #[] })

def resolve (r : Resolver) (program : List Stmt) :
    Except (List Diagnostic) Resolution × Resolver :=
  (resolveStatements r program).drain

/-- The verdicts on several programs in turn. -/
def resolveAll (r : Resolver) : List (List Stmt) → List (Except (List Diagnostic) Resolution)
  | [] => []
  | program :: programs => (r.resolve program).1 :: (r.resolve program).2.resolveAll programs

end Resolver

/-- The verdict on one program. -/
def resolve (lint : Lint) (program : List Stmt) : Except (List Diagnostic) Resolution :=
  ((Resolver.new lint).resolve program).1

end Lox
