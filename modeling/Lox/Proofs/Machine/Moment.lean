import Lox.Machine.Evaluation
import Lox.Proofs.Scope.Place
import Mathlib.Logic.Relation

namespace Lox

inductive Task where
  | evaluate (e : Expr)
  | evaluateAll (es : List Expr)
  | invoke (callee : Value) (paren : Token) (arguments : List Value)
  | call (f : Closure) (paren : Token) (arguments : List Value)
  | execute (s : Stmt)
  | executeAll (ss : List Stmt)
  | interpret (program : List Stmt)
  /-- A node looks up its name. -/
  | access (role : Role) (id : Nat) (name : Token)
  | bind (f : Closure) (receiver : Value)
  | declareClass (name : Token) (superclass : Option Class) (methods : List Method)
  | define (name : Token) (v : Value)

structure Moment where
  allowance : Nat
  task : Task
  machine : Machine

/-- What comes after a step, if there is an after. -/
def after (p : Step α) (m : Machine) (k : α → Machine → List Moment) : List Moment :=
  match p m with
  | .ok a m' => k a m'
  | .error _ _ => []

open Machine

/-- The moments that the evaluation of an expression goes through by itself. -/
def callsOfExpr (n : Nat) (m : Machine) : Expr → List Moment
  | .literal _ => []
  | .grouping inner => [⟨n, .evaluate inner, m⟩]
  | .unary _ right => [⟨n, .evaluate right, m⟩]
  | .binary left _ right =>
    [⟨n, .evaluate left, m⟩] ++ after (evaluate n left) m fun _ m => [⟨n, .evaluate right, m⟩]
  | .logical left operator right =>
    [⟨n, .evaluate left, m⟩] ++ after (evaluate n left) m fun v m =>
      if Operation.decides operator v then [] else [⟨n, .evaluate right, m⟩]
  | .variable id name => [⟨n + 1, .access .read id name, m⟩]
  | .assign id name value =>
    [⟨n, .evaluate value, m⟩] ++ after (evaluate n value) m fun _ m =>
      [⟨n + 1, .access .write id name, m⟩]
  | .call callee paren arguments =>
    [⟨n, .evaluate callee, m⟩] ++ after (evaluate n callee) m fun f m =>
      [⟨n, .evaluateAll arguments, m⟩] ++ after (evaluateAll n arguments) m fun vs m =>
        [⟨n, .invoke f paren vs, m⟩]
  | .get object name =>
    [⟨n, .evaluate object, m⟩] ++ after (evaluate n object) m fun v m =>
      match v with
      | .instance i c =>
        match m.instances[i.index]?.bind (·[name.lexeme]?), c.method? name.lexeme with
        | none, some f => [⟨n + 1, .bind f (.instance i c), m⟩]
        | _, _ => []
      | _ => []
  | .set object _ value =>
    [⟨n, .evaluate object, m⟩] ++ after (evaluate n object) m fun v m =>
      match v with
      | .instance _ _ => [⟨n, .evaluate value, m⟩]
      | _ => []
  | .this id keyword => [⟨n + 1, .access .this id keyword, m⟩]
  | .super id keyword method =>
    [⟨n + 1, .access .super id keyword, m⟩] ++
      match m.addresses[id]? with
      | none => []
      | some a => after (readLocal keyword a) m fun v m =>
        match v with
        | .class superclass => after (receiver keyword a) m fun (i, c) m =>
          match superclass.method? method.lexeme with
          | some f => [⟨n + 1, .bind f (.instance i c), m⟩]
          | none => []
        | _ => []
  | .function _ => []

def callsOfInvocation (n : Nat) (m : Machine) (paren : Token) (arguments : List Value) :
    Value → List Moment
  | .function _ f => after (checkArity f.arity arguments.length paren) m fun _ m =>
    [⟨n, .call f paren arguments, m⟩]
  | .class c => after (checkArity (arity c) arguments.length paren) m fun _ m =>
    after newInstance m fun i m =>
      match c.method? initializerName with
      | some f => [⟨n + 1, .bind f (.instance i c), m⟩] ++ after (bind f (.instance i c)) m fun f m =>
        [⟨n, .call f paren arguments, m⟩]
      | none => []
  | _ => []

def callsOfStmt (n : Nat) (m : Machine) : Stmt → List Moment
  | .expression expr => [⟨n, .evaluate expr, m⟩]
  | .print expr => [⟨n, .evaluate expr, m⟩]
  | .var name none => [⟨n + 1, .define name .nil, m⟩]
  | .var name (some value) =>
    [⟨n, .evaluate value, m⟩] ++ after (evaluate n value) m fun v m => [⟨n + 1, .define name v, m⟩]
  | .block statements => after (newFrame m.frame []) m fun frame m =>
    [⟨n, .executeAll statements, { m with frame := some frame }⟩]
  | .ifElse condition thenBranch elseBranch =>
    [⟨n, .evaluate condition, m⟩] ++ after (evaluate n condition) m fun v m =>
      if v.truthy then [⟨n, .execute thenBranch, m⟩]
      else
        match elseBranch with
        | some elseBranch => [⟨n, .execute elseBranch, m⟩]
        | none => []
  | .while condition body =>
    [⟨n, .evaluate condition, m⟩] ++ after (evaluate n condition) m fun v m =>
      if v.truthy then
        [⟨n, .execute body, m⟩] ++ after (execute n body) m fun flow m =>
          match flow with
          | .normal => [⟨n, .execute (.while condition body), m⟩]
          | _ => []
      else []
  | .break _ => []
  | .return _ none => []
  | .return _ (some value) => [⟨n, .evaluate value, m⟩]
  | .function ⟨name, function⟩ =>
    after (functionValue ⟨some name.lexeme, function, m.frame, false⟩) m fun v m =>
      [⟨n + 1, .define name v, m⟩]
  | .class name none methods => [⟨n + 1, .declareClass name none methods, m⟩]
  | .class name (some superclass) methods =>
    [⟨n, .evaluate superclass, m⟩] ++ after (evaluate n superclass) m fun v m =>
      match v with
      | .class c => [⟨n + 1, .declareClass name (some c) methods, m⟩]
      | _ => []

/-- The moment of one statement at top level. -/
def topLevel (n : Nat) (m : Machine) (s : Stmt) : Moment :=
  match s, m.echoes with
  | .expression expr, true => ⟨n, .evaluate expr, m⟩
  | s, _ => ⟨n, .execute s, m⟩

namespace Moment

/-- The moments that a moment goes through by itself, in order. Without allowance there are none. -/
def calls (M : Moment) : List Moment :=
  match M.task, M.allowance with
  | .interpret [], _ => []
  | .interpret (s :: ss), n =>
    [topLevel n M.machine s] ++ after (interpretOne n s) M.machine fun _ m => [⟨n, .interpret ss, m⟩]
  | _, 0 => []
  | .evaluate e, n + 1 => callsOfExpr n M.machine e
  | .evaluateAll [], _ + 1 => []
  | .evaluateAll (e :: es), n + 1 =>
    [⟨n, .evaluate e, M.machine⟩] ++ after (Machine.evaluate n e) M.machine fun _ m =>
      [⟨n, .evaluateAll es, m⟩]
  | .invoke callee paren arguments, n + 1 => callsOfInvocation n M.machine paren arguments callee
  | .call f _ arguments, n + 1 => after (newFrame f.frame arguments) M.machine fun frame m =>
    [⟨n, .executeAll f.function.body, { m with frame := some frame }⟩]
  | .execute s, n + 1 => callsOfStmt n M.machine s
  | .executeAll [], _ + 1 => []
  | .executeAll (s :: ss), n + 1 =>
    [⟨n, .execute s, M.machine⟩] ++ after (Machine.execute n s) M.machine fun flow m =>
      match flow with
      | .normal => [⟨n, .executeAll ss, m⟩]
      | _ => []
  | .access _ _ _, _ + 1 => []
  | .bind _ _, _ + 1 => []
  | .declareClass name _ _, n + 1 => [⟨n + 1, .define name .nil, M.machine⟩]
  | .define _ _, _ + 1 => []

/-- The moments that a moment goes through, and the moments that they go through, and so on. -/
def Reaches : Moment → Moment → Prop := Relation.ReflTransGen fun M M' => M' ∈ M.calls

end Moment

/-- The scope for which a task makes a frame. -/
def Task.site? : Task → Option Site
  | .execute (.block statements) => some (.block statements)
  | .call f _ _ => some (.function f.function)
  | .bind f _ => some (.this f.function)
  | .declareClass _ (some _) methods => some (.super methods)
  | _ => none

namespace Moment

variable (M : Moment)

/-- The frame that is made at a moment, if one is. -/
def newRef : FrameRef := ⟨M.machine.frames.frames.size⟩

def enclosing : Option FrameRef :=
  match M.task with
  | .call f _ _ => f.frame
  | .bind f _ => f.frame
  | _ => M.machine.frame

/-- At this moment the frame `g` is made for a scope. -/
structure Creates (g : FrameRef) (site : Site) : Prop where
  allowed : M.allowance ≠ 0
  site : M.task.site? = some site
  ref : g = M.newRef

/-- At this moment the frame `g` gets its cell `slot`, which belongs to a name. -/
def Appends (g : FrameRef) (slot : Nat) (name : String) : Prop :=
  match M.task with
  | .define t _ =>
    M.machine.frame = some g ∧ M.machine.frames.size g = slot ∧ t.lexeme = name
  | .call f _ arguments =>
    g = M.newRef ∧ slot < arguments.length ∧ (f.function.params[slot]?.map Token.lexeme) = some name
  | .bind _ _ => g = M.newRef ∧ slot = 0 ∧ name = "this"
  | .declareClass _ (some _) _ => g = M.newRef ∧ slot = 0 ∧ name = "super"
  | _ => False

/-- At this moment a closure is made, in the frame in which it will look up names. -/
def Makes (f : Closure) : Prop :=
  match M.task with
  | .evaluate (.function function) => f.function = function ∧ f.frame = M.machine.frame
  | .execute (.function ⟨_, function⟩) => f.function = function ∧ f.frame = M.machine.frame
  | .bind g _ => f.function = g.function ∧ f.frame = some M.newRef
  | .declareClass _ none methods =>
    (∃ method ∈ methods, method.function = f.function) ∧ f.frame = M.machine.frame
  | .declareClass _ (some _) methods =>
    (∃ method ∈ methods, method.function = f.function) ∧ f.frame = some M.newRef
  | _ => False

end Moment

end Lox
