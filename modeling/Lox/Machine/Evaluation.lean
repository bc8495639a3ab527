import Lox.Machine.Access
import Lox.Machine.Operation

namespace Lox.Machine

/-- Arguments that a class takes: those of its initializer. -/
def arity (c : Class) : Nat :=
  match c.method? initializerName with
  | some f => f.arity
  | none => 0

mutual

/-- The allowance bounds how deep evaluation goes and how often a loop runs; a result does not
depend on it. -/
def evaluate : Nat → Expr → Step Value
  | 0, _ => throw .exhausted
  | n + 1, e =>
    match e with
    | .literal value => return Operation.literal value
    | .grouping inner => evaluate n inner
    | .unary operator right => do
      ofExcept (Operation.unary operator (← evaluate n right))
    | .binary left operator right => do
      let v ← evaluate n left
      let w ← evaluate n right
      ofExcept (Operation.binary operator v w)
    | .logical left operator right => do
      let v ← evaluate n left
      if Operation.decides operator v then return v else evaluate n right
    | .variable id name => readVariable id name
    | .assign id name value => do
      let v ← evaluate n value
      assignVariable id name v
      return v
    | .call callee paren arguments => do
      let f ← evaluate n callee
      let vs ← evaluateAll n arguments
      invoke n f paren vs
    | .get object name => do
      match ← evaluate n object with
      | .instance i c => property i c name
      | _ => fail (.notAnInstance name.line)
    | .set object name value => do
      match ← evaluate n object with
      | .instance i _ =>
        let v ← evaluate n value
        setField i name v
        return v
      | _ => fail (.fieldOnNonInstance name.line)
    | .this id keyword => readVariable id keyword
    | .super id keyword method => superMethod id keyword method
    | .function function => do
      functionValue ⟨none, function, (← get).frame, false⟩

def evaluateAll : Nat → List Expr → Step (List Value)
  | 0, _ => throw .exhausted
  | _ + 1, [] => return []
  | n + 1, e :: es => do
    let v ← evaluate n e
    let vs ← evaluateAll n es
    return v :: vs

def invoke : Nat → Value → Token → List Value → Step Value
  | 0, _, _, _ => throw .exhausted
  | n + 1, callee, paren, arguments =>
    match callee with
    | .native f => do
      checkArity f.arity arguments.length paren
      callNative f paren arguments
    | .function _ f => do
      checkArity f.arity arguments.length paren
      call n f paren arguments
    | .class c => do
      checkArity (arity c) arguments.length paren
      let i ← newInstance
      match c.method? initializerName with
      | some f =>
        let _ ← call n (← bind f (.instance i c)) paren arguments
        return .instance i c
      | none => return .instance i c
    | _ => fail (.notCallable paren.line)

/-- An initializer gives back its receiver, whatever its body returns. -/
def call : Nat → Closure → Token → List Value → Step Value
  | 0, _, _, _ => throw .exhausted
  | n + 1, f, paren, arguments => do
    let frame ← newFrame f.frame arguments
    let flow ← within frame (executeAll n f.function.body)
    if f.isInitializer then
      boundReceiver f paren
    else
      match flow with
      | .return v => return v
      | _ => return .nil

def execute : Nat → Stmt → Step Flow
  | 0, _ => throw .exhausted
  | n + 1, s =>
    match s with
    | .expression expr => do
      let _ ← evaluate n expr
      return .normal
    | .print expr => do
      let v ← evaluate n expr
      write v.text
      return .normal
    | .var name none => do
      let _ ← define name .nil
      return .normal
    | .var name (some value) => do
      let v ← evaluate n value
      let _ ← define name v
      return .normal
    | .block statements => do
      let frame ← newFrame (← get).frame []
      within frame (executeAll n statements)
    | .ifElse condition thenBranch elseBranch => do
      let v ← evaluate n condition
      if v.truthy then
        execute n thenBranch
      else
        match elseBranch with
        | some elseBranch => execute n elseBranch
        | none => return .normal
    | .while condition body => do
      let v ← evaluate n condition
      if v.truthy then
        match ← execute n body with
        | .normal => execute n (.while condition body)
        | .break => return .normal
        | .return v => return .return v
      else
        return .normal
    | .break _ => return .break
    | .return _ none => return .return .nil
    | .return _ (some value) => do
      let v ← evaluate n value
      return .return v
    | .function ⟨name, function⟩ => do
      let v ← functionValue ⟨some name.lexeme, function, (← get).frame, false⟩
      let _ ← define name v
      return .normal
    | .class name none methods => do
      declareClass name none methods
      return .normal
    | .class name (some superclass) methods => do
      match ← evaluate n superclass with
      | .class c =>
        declareClass name (some c) methods
        return .normal
      | _ => fail (.superclassNotClass superclass.line)

def executeAll : Nat → List Stmt → Step Flow
  | 0, _ => throw .exhausted
  | _ + 1, [] => return .normal
  | n + 1, s :: ss => do
    match ← execute n s with
    | .normal => executeAll n ss
    | flow => return flow

end

/-- One statement at top level, with the echo that a prompt gives. -/
def interpretOne (n : Nat) (s : Stmt) : Step Unit := do
  match s, (← get).echoes with
  | .expression expr, true => write (← evaluate n expr).text
  | s, _ =>
    let _ ← execute n s

/-- A program, up to its first error. -/
def interpret (n : Nat) : List Stmt → Step Unit
  | [] => return ()
  | s :: ss => do
    interpretOne n s
    interpret n ss

end Lox.Machine
