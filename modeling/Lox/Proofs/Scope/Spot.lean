import Lox.Scope.Walk

namespace Lox

/-- The names that a statement adds to the scope it stands in. -/
def Stmt.adds : Stmt → List Token
  | .var name _ => [name]
  | .function ⟨name, _⟩ => [name]
  | .class name _ _ => [name]
  | .ifElse _ thenBranch none => thenBranch.adds
  | .ifElse _ thenBranch (some elseBranch) => thenBranch.adds ++ elseBranch.adds
  | .while _ body => body.adds
  | _ => []

/-- What can be around a construct. The names are those that have been declared before it. -/
inductive Layer where
  | block (names : List Token)
  /-- The body of a function, or of a method of some name. -/
  | function (method? : Option Token) (names : List Token)
  | initializer (name : Token)
  | class (superclass? : Option Expr)

/-- What is around a construct, innermost first; at top level there is nothing. -/
abbrev Surroundings := List Layer

namespace Surroundings

/-- The names of the innermost scope; at top level there is no scope. -/
def names? : Surroundings → Option (List Token)
  | [] => none
  | .block names :: _ => some names
  | .function _ names :: _ => some names
  | .initializer _ :: S => names? S
  | .class _ :: S => names? S

/-- Behind the declarations of these names. -/
def add (names' : List Token) : Surroundings → Surroundings
  | .block names :: S => .block (names ++ names') :: S
  | .function method? names :: S => .function method? (names ++ names') :: S
  | S => S

/-- Has the name been declared in the innermost scope? -/
def Declares (S : Surroundings) (name : Token) : Prop :=
  ∃ names, S.names? = some names ∧ ∃ t ∈ names, t.lexeme = name.lexeme

/-- Is the construct in the initializer of the local variable of this name, with no function in
between? A variable whose name had been declared before is none. -/
def Initializes (S : Surroundings) (name : Token) : Prop :=
  ∃ t outer, S = .initializer t :: outer ∧ t.lexeme = name.lexeme ∧
    (names? outer).isSome ∧ ¬Declares outer t

/-- Is the innermost function a method, and of which name? -/
def function? : Surroundings → Option (Option Token)
  | [] => none
  | .function method? _ :: _ => some method?
  | _ :: S => function? S

/-- Has the innermost class a superclass, and which one? -/
def class? : Surroundings → Option (Option Expr)
  | [] => none
  | .class superclass? :: _ => some superclass?
  | _ :: S => class? S

end Surroundings

inductive Construct where
  | declaration (name : Token)
  | read (name : Token)
  | assignment (name : Token)
  | return (keyword : Token) (hasValue : Bool)
  | this (keyword : Token)
  | super (keyword : Token)
  | inheritance (name superclass : Token)

/-- A construct with what is around it in the text; whether it is faulty can be read off from that.
-/
structure Spot where
  construct : Construct
  around : Surroundings

/-- The faults, each with its report. -/
inductive Faulty : Spot → Diagnostic → Prop where
  | declaredTwice {name S} : Surroundings.Declares S name →
      Faulty ⟨.declaration name, S⟩ ⟨name.line, .scope .declaredTwice⟩
  | readInOwnInitializer {name S} : Surroundings.Initializes S name →
      Faulty ⟨.read name, S⟩ ⟨name.line, .scope .readInOwnInitializer⟩
  | assignedInOwnInitializer {name S} : Surroundings.Initializes S name →
      Faulty ⟨.assignment name, S⟩ ⟨name.line, .scope .assignedInOwnInitializer⟩
  | returnOutsideFunction {keyword hasValue S} : Surroundings.function? S = none →
      Faulty ⟨.return keyword hasValue, S⟩ ⟨keyword.line, .scope .returnOutsideFunction⟩
  | valueFromInitializer {keyword S method} : Surroundings.function? S = some (some method) →
      method.lexeme = initializerName →
      Faulty ⟨.return keyword true, S⟩ ⟨keyword.line, .scope .valueFromInitializer⟩
  | thisOutsideClass {keyword S} : Surroundings.class? S = none →
      Faulty ⟨.this keyword, S⟩ ⟨keyword.line, .scope .thisOutsideClass⟩
  | superOutsideClass {keyword S} : Surroundings.class? S = none →
      Faulty ⟨.super keyword, S⟩ ⟨keyword.line, .scope .superOutsideClass⟩
  | superWithoutSuperclass {keyword S} : Surroundings.class? S = some none →
      Faulty ⟨.super keyword, S⟩ ⟨keyword.line, .scope .superWithoutSuperclass⟩
  | inheritsFromItself {name superclass S} : superclass.lexeme = name.lexeme →
      Faulty ⟨.inheritance name superclass, S⟩ ⟨superclass.line, .scope .inheritsFromItself⟩

/-- The declarations of parameters, behind some others. -/
def spotsOfParameters (method? : Option Token) (S : Surroundings) (before : List Token) :
    List Token → List Spot
  | [] => []
  | t :: ts =>
    ⟨.declaration t, .function method? before :: S⟩ ::
      spotsOfParameters method? S (before ++ [t]) ts

/-- The claim of a class to another one. -/
def spotsOfInheritance (name : Token) (S : Surroundings) : Expr → List Spot
  | .variable _ superclass => [⟨.inheritance name superclass, S⟩]
  | _ => []

mutual

/-- The spots of an expression in the order in which they are walked over. -/
def Expr.spots (S : Surroundings) : Expr → List Spot
  | .literal _ => []
  | .grouping inner => inner.spots S
  | .unary _ right => right.spots S
  | .binary left _ right => left.spots S ++ right.spots S
  | .logical left _ right => left.spots S ++ right.spots S
  | .variable _ name => [⟨.read name, S⟩]
  | .assign _ name value => value.spots S ++ [⟨.assignment name, S⟩]
  | .call callee _ arguments => callee.spots S ++ spotsOfAll S arguments
  | .get object _ => object.spots S
  | .set object _ value => value.spots S ++ object.spots S
  | .this _ keyword => [⟨.this keyword, S⟩]
  | .super _ keyword _ => [⟨.super keyword, S⟩]
  | .function function => function.spots none S

def spotsOfAll (S : Surroundings) : List Expr → List Spot
  | [] => []
  | e :: es => e.spots S ++ spotsOfAll S es

/-- Parameters and body are in one scope. -/
def Function.spots (method? : Option Token) (S : Surroundings) : Function → List Spot
  | ⟨params, body⟩ =>
    spotsOfParameters method? S [] params ++ spotsOfStatements (.function method? params :: S) body

def Stmt.spots (S : Surroundings) : Stmt → List Spot
  | .expression expr => expr.spots S
  | .print expr => expr.spots S
  | .var name none => [⟨.declaration name, S⟩]
  | .var name (some value) => ⟨.declaration name, S⟩ :: value.spots (.initializer name :: S)
  | .block statements => spotsOfStatements (.block [] :: S) statements
  | .ifElse condition thenBranch none => condition.spots S ++ thenBranch.spots S
  | .ifElse condition thenBranch (some elseBranch) =>
    condition.spots S ++ (thenBranch.spots S ++ elseBranch.spots (S.add thenBranch.adds))
  | .while condition body => condition.spots S ++ body.spots S
  | .break _ => []
  | .return keyword none => [⟨.return keyword false, S⟩]
  | .return keyword (some value) => ⟨.return keyword true, S⟩ :: value.spots S
  | .function ⟨name, function⟩ => ⟨.declaration name, S⟩ :: function.spots none (S.add [name])
  | .class name none methods =>
    ⟨.declaration name, S⟩ :: spotsOfMethods (.class none :: S.add [name]) methods
  | .class name (some superclass) methods =>
    ⟨.declaration name, S⟩ :: (spotsOfInheritance name (S.add [name]) superclass ++
      (superclass.spots (.class (some superclass) :: S.add [name]) ++
        spotsOfMethods (.class (some superclass) :: S.add [name]) methods))

def spotsOfStatements (S : Surroundings) : List Stmt → List Spot
  | [] => []
  | s :: ss => s.spots S ++ spotsOfStatements (S.add s.adds) ss

def spotsOfMethods (S : Surroundings) : List Method → List Spot
  | [] => []
  | ⟨name, function⟩ :: ms => function.spots (some name) S ++ spotsOfMethods S ms

end

end Lox
