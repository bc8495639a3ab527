import Lox.Scope
import Lox.Tree

namespace Lox

inductive Finding where
  /-- The node `id` names the local at an address; a node without a finding names a global. -/
  | address (id : Nat) (a : Address)
  | misuse (d : Diagnostic)
  | unread (d : Diagnostic)
deriving DecidableEq

/-- What kind of function is around. -/
inductive FunctionContext where
  | none
  | function
  | method
  | initializer
deriving DecidableEq

/-- What kind of class is around. -/
inductive ClassContext where
  | none
  | base
  | subclass
deriving DecidableEq

structure Context where
  inFunction : FunctionContext
  inClass : ClassContext
deriving DecidableEq

def Context.top : Context := ⟨.none, .none⟩

/-- The open scopes, innermost first, and what has been found; no scope is open at top level. -/
structure Walk where
  scopes : List Scope
  findings : Array Finding

namespace Walk

def find (w : Walk) (f : Finding) : Walk := { w with findings := w.findings.push f }

def misuse (w : Walk) (line : Nat) (fault : ScopeFault) : Walk :=
  w.find (.misuse ⟨line, .scope fault⟩)

def enter (w : Walk) (s : Scope) : Walk := { w with scopes := s :: w.scopes }

/-- Closes the innermost scope and reports what was not read in it. -/
def leave (w : Walk) : Walk :=
  match w.scopes with
  | [] => w
  | s :: outer => s.unread.foldl (fun w d => w.find (.unread d)) { w with scopes := outer }

/-- A second declaration of a name in a scope is a misuse and declares nothing. -/
def declare (w : Walk) (name : Token) : Walk :=
  match w.scopes with
  | [] => w
  | s :: outer =>
    match s.slot? name.lexeme with
    | some _ => w.misuse name.line .declaredTwice
    | none => { w with scopes := s.declare name.lexeme name.line :: outer }

def define (w : Walk) (name : Token) : Walk :=
  match w.scopes with
  | [] => w
  | s :: outer => { w with scopes := s.define name.lexeme :: outer }

def introduce (w : Walk) (name : Token) : Walk := (w.declare name).define name

/-- Are we in the initializer of the innermost local of this name? -/
def isPending (w : Walk) (name : Token) : Bool :=
  match w.scopes with
  | [] => false
  | s :: _ => s.isPending name.lexeme

def refer (w : Walk) (id : Nat) (name : Token) : Walk :=
  match Scope.address? w.scopes name.lexeme with
  | none => w
  | some a => w.find (.address id a)

/-- A reference that counts as a use. -/
def read (w : Walk) (id : Nat) (name : Token) : Walk :=
  match Scope.address? w.scopes name.lexeme with
  | none => w
  | some a => { w with scopes := Scope.useAt w.scopes a }.find (.address id a)

def readVariable (w : Walk) (id : Nat) (name : Token) : Walk :=
  (if w.isPending name then w.misuse name.line .readInOwnInitializer else w).read id name

def assignVariable (w : Walk) (id : Nat) (name : Token) : Walk :=
  (if w.isPending name then w.misuse name.line .assignedInOwnInitializer else w).refer id name

def readThis (w : Walk) (c : ClassContext) (id : Nat) (keyword : Token) : Walk :=
  match c with
  | .none => w.misuse keyword.line .thisOutsideClass
  | _ => w.read id keyword

def readSuper (w : Walk) (c : ClassContext) (id : Nat) (keyword : Token) : Walk :=
  match c with
  | .none => w.misuse keyword.line .superOutsideClass
  | .base => w.misuse keyword.line .superWithoutSuperclass
  | .subclass => w.read id keyword

def leaveFunction (w : Walk) (c : FunctionContext) (keyword : Token) : Walk :=
  if c = .none then w.misuse keyword.line .returnOutsideFunction else w

def returnValue (w : Walk) (c : FunctionContext) (keyword : Token) : Walk :=
  if c = .initializer then w.misuse keyword.line .valueFromInitializer else w

end Walk

/-- The methods of this name set up an instance. -/
def initializerName : String := "init"

def methodContext (name : Token) : FunctionContext :=
  if name.lexeme = initializerName then .initializer else .method

def inheritsFrom (name : Token) : Expr → Option Token
  | .variable _ superclass => if superclass.lexeme = name.lexeme then some superclass else none
  | _ => none

def Walk.checkSuperclass (w : Walk) (name : Token) (superclass : Expr) : Walk :=
  match inheritsFrom name superclass with
  | some t => w.misuse t.line .inheritsFromItself
  | none => w

mutual

def Expr.walk (c : Context) (w : Walk) : Expr → Walk
  | .literal _ => w
  | .grouping inner => inner.walk c w
  | .unary _ right => right.walk c w
  | .binary left _ right => right.walk c (left.walk c w)
  | .logical left _ right => right.walk c (left.walk c w)
  | .variable id name => w.readVariable id name
  | .assign id name value => (value.walk c w).assignVariable id name
  | .call callee _ arguments => walkArguments c (callee.walk c w) arguments
  | .get object _ => object.walk c w
  | .set object _ value => object.walk c (value.walk c w)
  | .this id keyword => w.readThis c.inClass id keyword
  | .super id keyword _ => w.readSuper c.inClass id keyword
  | .function function => function.walk { c with inFunction := .function } w

def walkArguments (c : Context) (w : Walk) : List Expr → Walk
  | [] => w
  | argument :: arguments => walkArguments c (argument.walk c w) arguments

/-- Parameters and body are in one scope. -/
def Function.walk (c : Context) (w : Walk) : Function → Walk
  | ⟨params, body⟩ => (walkStatements c (params.foldl Walk.introduce (w.enter [])) body).leave

def Stmt.walk (c : Context) (w : Walk) : Stmt → Walk
  | .expression expr => expr.walk c w
  | .print expr => expr.walk c w
  | .var name none => w.introduce name
  | .var name (some value) => (value.walk c (w.declare name)).define name
  | .block statements => (walkStatements c (w.enter []) statements).leave
  | .ifElse condition thenBranch none => thenBranch.walk c (condition.walk c w)
  | .ifElse condition thenBranch (some elseBranch) =>
    elseBranch.walk c (thenBranch.walk c (condition.walk c w))
  | .while condition body => body.walk c (condition.walk c w)
  | .break _ => w
  | .return keyword none => w.leaveFunction c.inFunction keyword
  | .return keyword (some value) =>
    value.walk c ((w.leaveFunction c.inFunction keyword).returnValue c.inFunction keyword)
  | .function ⟨name, function⟩ => function.walk { c with inFunction := .function } (w.introduce name)
  | .class name none methods =>
    (walkMethods { c with inClass := .base }
      ((w.introduce name).enter (Scope.implicit "this" name.line)) methods).leave
  | .class name (some superclass) methods =>
    let c := { c with inClass := .subclass }
    let w := superclass.walk c ((w.introduce name).checkSuperclass name superclass)
    (walkMethods c ((w.enter (Scope.implicit "super" name.line)).enter
      (Scope.implicit "this" name.line)) methods).leave.leave

def walkStatements (c : Context) (w : Walk) : List Stmt → Walk
  | [] => w
  | statement :: statements => walkStatements c (statement.walk c w) statements

def walkMethods (c : Context) (w : Walk) : List Method → Walk
  | [] => w
  | ⟨name, function⟩ :: methods =>
    walkMethods c (function.walk { c with inFunction := methodContext name } w) methods

end

end Lox
