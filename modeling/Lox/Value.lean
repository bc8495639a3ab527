import Std.Data.TreeMap
import Lox.Frame
import Lox.Tree

namespace Lox

/-- A function with the frame it was made in; at top level there is none. -/
structure Closure where
  name : Option String
  function : Function
  frame : Option FrameRef
  isInitializer : Bool

def Closure.arity (f : Closure) : Nat := f.function.params.length

inductive Class where
  | mk (identity : Nat) (name : String) (superclass : Option Class)
    (methods : Std.TreeMap String Closure)

namespace Class

def identity : Class → Nat
  | mk identity _ _ _ => identity

def name : Class → String
  | mk _ name _ _ => name

/-- The method of a class, or else the one it inherits. -/
def method? (name : String) : Class → Option Closure
  | mk _ _ none methods => methods[name]?
  | mk _ _ (some superclass) methods =>
    match methods[name]? with
    | some f => some f
    | none => superclass.method? name

end Class

/-- A function that the host provides. -/
structure NativeRef where
  index : Nat
  name : String
  arity : Nat

structure InstanceRef where
  index : Nat
deriving DecidableEq

/-- Functions, classes and instances are what they are by identity. -/
inductive Value where
  | nil
  | bool (b : Bool)
  | number (x : Float)
  | string (s : String)
  | native (f : NativeRef)
  | function (identity : Nat) (f : Closure)
  | class (c : Class)
  | instance (i : InstanceRef) (c : Class)

namespace Value

/-- Only `nil` and `false` are not true. -/
def truthy : Value → Bool
  | .nil => false
  | .bool b => b
  | _ => true

/-- Values of different kinds are never equal. -/
def equals : Value → Value → Bool
  | .nil, .nil => true
  | .bool a, .bool b => a == b
  | .number x, .number y => x == y
  | .string s, .string t => s == t
  | .native f, .native g => f.index == g.index
  | .function i _, .function j _ => i == j
  | .class c, .class d => c.identity == d.identity
  | .instance i _, .instance j _ => i.index == j.index
  | _, _ => false

/-- What `print` writes. -/
def text : Value → String
  | .nil => "nil"
  | .bool true => "true"
  | .bool false => "false"
  | .number x => Numeral.printed x
  | .string s => s
  | .native f => "<native fn " ++ f.name ++ ">"
  | .function _ ⟨some name, _, _, _⟩ => "<fn " ++ name ++ ">"
  | .function _ ⟨none, _, _, _⟩ => "<fn>"
  | .class c => c.name
  | .instance _ c => c.name ++ " instance"

end Value

end Lox
