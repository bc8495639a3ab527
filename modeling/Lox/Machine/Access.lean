import Lox.Machine

namespace Lox.Machine

def fail (e : RuntimeError) : Step α := throw (.error e)

def ofExcept : Except RuntimeError α → Step α
  | .ok a => pure a
  | .error e => fail e

def undefined (name : Token) : Step α := fail (.undefinedVariable name.lexeme name.line)

def write (line : String) : Step Unit := modify fun m => { m with output := m.output ++ line ++ "\n" }

def mintIdentity : Step Nat :=
  modifyGet fun m => (m.nextIdentity, { m with nextIdentity := m.nextIdentity + 1 })

/-- A new frame with these cells. -/
def newFrame (enclosing : Option FrameRef) (cells : List Value) : Step FrameRef :=
  modifyGet fun m =>
    let (f, frames) := m.frames.create enclosing
    (f, { m with frames := cells.foldl (fun frames v => (frames.define f v).2) frames })

/-- Runs `p` in the frame `f`, and then goes back to where the machine was. -/
def within (f : FrameRef) (p : Step α) : Step α := fun m =>
  let outer := m.frame
  match p { m with frame := some f } with
  | .ok a m => .ok a { m with frame := outer }
  | .error e m => .error e { m with frame := outer }

/-- Appends a cell to the frame, or at top level sets a global; gives the slot of the cell. -/
def define (name : Token) (v : Value) : Step (Option Nat) :=
  modifyGet fun m =>
    match m.frame with
    | none => (none, m.defineGlobal name.lexeme v)
    | some f =>
      let (slot, frames) := m.frames.define f v
      (some slot, { m with frames })

def readLocal (name : Token) (a : Address) : Step Value := do
  let m ← get
  match m.frame with
  | none => undefined name
  | some f =>
    match m.frames.getAt f a with
    | .ok v => return v
    | .error _ => undefined name

/-- A node without an address names a global. -/
def readVariable (id : Nat) (name : Token) : Step Value := do
  let m ← get
  match m.addresses[id]? with
  | some a => readLocal name a
  | none =>
    match m.globals[name.lexeme]? with
    | some v => return v
    | none => undefined name

def assignLocal (name : Token) (a : Address) (v : Value) : Step Unit := fun m =>
  match m.frame with
  | none => undefined name m
  | some f =>
    match m.frames.locate f a with
    | .ok g => .ok () { m with frames := m.frames.set g a.slot v }
    | .error _ => undefined name m

/-- Only a global that exists can be assigned. -/
def assignVariable (id : Nat) (name : Token) (v : Value) : Step Unit := do
  let m ← get
  match m.addresses[id]? with
  | some a => assignLocal name a v
  | none =>
    if m.globals.contains name.lexeme then
      modify fun m => m.defineGlobal name.lexeme v
    else
      undefined name

/-- The method with its receiver: `this` is in a frame of its own around the body. -/
def bind (f : Closure) (receiver : Value) : Step Closure := do
  return { f with frame := some (← newFrame f.frame [receiver]) }

def functionValue (f : Closure) : Step Value := return .function (← mintIdentity) f

def newInstance : Step InstanceRef :=
  modifyGet fun m => (⟨m.instances.size⟩, { m with instances := m.instances.push ∅ })

/-- A field of an instance goes before a method of its class. -/
def property (i : InstanceRef) (c : Class) (name : Token) : Step Value := do
  let m ← get
  match m.instances[i.index]?.bind (·[name.lexeme]?) with
  | some v => return v
  | none =>
    match c.method? name.lexeme with
    | some f => functionValue (← bind f (.instance i c))
    | none => fail (.undefinedProperty name.lexeme name.line)

def setField (i : InstanceRef) (name : Token) (v : Value) : Step Unit :=
  modify fun m =>
    { m with instances := m.instances.modify i.index fun fields => fields.insert name.lexeme v }

/-- The receiver of the method around a `super` at an address: it is one frame further in. -/
def receiver (keyword : Token) (a : Address) : Step (InstanceRef × Class) := do
  let m ← get
  let missing := .undefinedVariable "this" keyword.line
  match a.depth, m.frame with
  | depth + 1, some f =>
    match m.frames.getAt f ⟨depth, 0⟩ with
    | .ok (.instance i c) => return (i, c)
    | _ => fail missing
  | _, _ => fail missing

/-- A method of the superclass that the class was made with, for the receiver at hand. -/
def superMethod (id : Nat) (keyword method : Token) : Step Value := do
  let m ← get
  match m.addresses[id]? with
  | none => undefined keyword
  | some a =>
    match ← readLocal keyword a with
    | .class superclass =>
      let (i, c) ← receiver keyword a
      match superclass.method? method.lexeme with
      | some f => functionValue (← bind f (.instance i c))
      | none => fail (.undefinedProperty method.lexeme method.line)
    | _ => fail (.superclassNotClass keyword.line)

/-- The receiver of a call that has ended. -/
def boundReceiver (f : Closure) (paren : Token) : Step Value := do
  let m ← get
  let missing := .undefinedVariable "this" paren.line
  match f.frame with
  | none => fail missing
  | some frame =>
    match m.frames.getAt frame ⟨0, 0⟩ with
    | .ok v => return v
    | .error _ => fail missing

/-- The methods of a class; a later one replaces an earlier one of its name. -/
def methodTable (frame : Option FrameRef) (methods : List Method) : Std.TreeMap String Closure :=
  methods.foldl (fun t m =>
    t.insert m.name.lexeme
      ⟨some m.name.lexeme, m.function, frame, m.name.lexeme = initializerName⟩) ∅

/-- Puts the value of a declaration where its name is. -/
def settle (name : Token) (slot : Option Nat) (v : Value) : Step Unit := fun m =>
  match slot, m.frame with
  | some slot, some f =>
    match m.frames.locate f ⟨0, slot⟩ with
    | .ok g => .ok () { m with frames := m.frames.set g slot v }
    | .error a => fail (.invalidSlot a) m
  | _, _ => .ok () (m.defineGlobal name.lexeme v)

/-- Methods may name the class, so its name is there before its value. -/
def declareClass (name : Token) (superclass : Option Class) (methods : List Method) :
    Step Unit := do
  let slot ← define name .nil
  let here := (← get).frame
  let frame ←
    match superclass with
    | some c => some <$> newFrame here [.class c]
    | none => pure here
  let c := .mk (← mintIdentity) name.lexeme superclass (methodTable frame methods)
  settle name slot (.class c)

def checkArity (expected got : Nat) (paren : Token) : Step Unit := do
  if got ≠ expected then
    fail (.arityMismatch expected got paren.line)

def nextTurn : Step Nat := modifyGet fun m => (m.turns, { m with turns := m.turns + 1 })

/-- A host function that is not there has nothing to say. -/
def callNative (f : NativeRef) (paren : Token) (arguments : List Value) : Step Value := do
  let turn ← nextTurn
  match (← get).natives[f.index]? with
  | none => return .nil
  | some body =>
    match body turn arguments with
    | .ok v => return v
    | .error message => fail (.native f.name message paren.line)

end Lox.Machine
