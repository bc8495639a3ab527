import Lox.Value
import Lox.Scope.Resolution

namespace Lox

inductive RuntimeError where
  | operandMustBeNumber (operator : String) (line : Nat)
  | operandsMustBeNumbers (operator : String) (line : Nat)
  | invalidAddition (line : Nat)
  | divisionByZero (line : Nat)
  | undefinedVariable (name : String) (line : Nat)
  | undefinedProperty (name : String) (line : Nat)
  | arityMismatch (expected got : Nat) (line : Nat)
  | notCallable (line : Nat)
  | notAnInstance (line : Nat)
  | fieldOnNonInstance (line : Nat)
  | superclassNotClass (line : Nat)
  | native (name message : String) (line : Nat)
  /-- There is no cell at an address. -/
  | invalidSlot (a : Address)
deriving DecidableEq

namespace RuntimeError

def line? : RuntimeError → Option Nat
  | operandMustBeNumber _ line => some line
  | operandsMustBeNumbers _ line => some line
  | invalidAddition line => some line
  | divisionByZero line => some line
  | undefinedVariable _ line => some line
  | undefinedProperty _ line => some line
  | arityMismatch _ _ line => some line
  | notCallable line => some line
  | notAnInstance line => some line
  | fieldOnNonInstance line => some line
  | superclassNotClass line => some line
  | native _ _ line => some line
  | invalidSlot _ => none

def message : RuntimeError → String
  | operandMustBeNumber operator _ => "Operand of '" ++ operator ++ "' must be a number."
  | operandsMustBeNumbers operator _ => "Operands of '" ++ operator ++ "' must be numbers."
  | invalidAddition _ => "Operands of '+' must be two numbers or include a string."
  | divisionByZero _ => "Can't divide by zero."
  | undefinedVariable name _ => "Undefined variable '" ++ name ++ "'."
  | undefinedProperty name _ => "Undefined property '" ++ name ++ "'."
  | arityMismatch expected got _ =>
    "Expected " ++ toString expected ++ " arguments but got " ++ toString got ++ "."
  | notCallable _ => "Can only call functions and classes."
  | notAnInstance _ => "Only instances have properties."
  | fieldOnNonInstance _ => "Only instances have fields."
  | superclassNotClass _ => "Superclass must be a class."
  | native name message _ => "Native function '" ++ name ++ "' failed: " ++ message
  | invalidSlot a => "No local slot " ++ toString a.slot ++ " at depth " ++ toString a.depth ++ "."

/-- The message behind its line, if there is one. -/
def located (e : RuntimeError) : String :=
  match e.line? with
  | some line => "[line " ++ toString line ++ "] " ++ e.message
  | none => e.message

/-- The text shown to the user. -/
def display (e : RuntimeError) : String := "Runtime error: " ++ e.located

end RuntimeError

/-- What a host function makes of its arguments; the number says how many calls of host functions
there were before. -/
abbrev NativeBody := Nat → List Value → Except String Value

/-- The readings of a clock in seconds, one for every call of a host function. -/
abbrev Clock := Nat → Float

/-- A clock that goes on by a fixed step. -/
def Clock.ticking (start step : Float) : Clock := fun n => start + step * n.toFloat

abbrev Fields := Std.TreeMap String Value

structure Machine where
  globals : Std.TreeMap String Value
  /-- The innermost frame; at top level there is none. -/
  frame : Option FrameRef
  frames : Frames Value
  /-- The fields of every instance that was ever made. -/
  instances : Array Fields
  natives : Array NativeBody
  /-- How many calls of host functions there have been. -/
  turns : Nat
  /-- Where the nodes that name locals find them. -/
  addresses : Std.TreeMap Nat Address
  output : String
  /-- Are expression statements at top level echoed? -/
  echoes : Bool
  /-- The first identity that no function or class has taken. -/
  nextIdentity : Nat

/-- Why a step ends without a result: an error, or an allowance that is used up. -/
inductive Stop where
  | error (e : RuntimeError)
  | exhausted

/-- A step of a machine, which is kept when it stops. -/
abbrev Step := EStateM Stop Machine

/-- How a statement ends. -/
inductive Flow where
  | normal
  | break
  | return (v : Value)

namespace Machine

def empty : Machine where
  globals := ∅
  frame := none
  frames := .empty
  instances := #[]
  natives := #[]
  turns := 0
  addresses := ∅
  output := ""
  echoes := false
  nextIdentity := 0

def defineGlobal (m : Machine) (name : String) (v : Value) : Machine :=
  { m with globals := m.globals.insert name v }

/-- Gives a host function a global name. -/
def defineNative (m : Machine) (name : String) (arity : Nat) (body : NativeBody) : Machine :=
  { m with natives := m.natives.push body }.defineGlobal name
    (.native ⟨m.natives.size, name, arity⟩)

/-- A machine whose only host function reads the clock. -/
def new (clock : Clock) : Machine :=
  empty.defineNative "clock" 0 fun turn _ => .ok (.number (clock turn))

def global? (m : Machine) (name : String) : Option Value := m.globals[name]?

def noteAddresses (m : Machine) (addresses : List (Nat × Address)) : Machine :=
  { m with addresses := addresses.foldl (fun t (id, a) => t.insert id a) m.addresses }

def noteResolution (m : Machine) (r : Resolution) : Machine := m.noteAddresses r.addresses

end Machine

end Lox
