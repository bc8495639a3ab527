import Lox.Token
import Lox.Diagnostic

namespace Lox

/-- Where a local lives: so many frames out, and in which cell there. -/
structure Address where
  depth : Nat
  slot : Nat
deriving DecidableEq

def Address.outward (a : Address) : Address := { a with depth := a.depth + 1 }

structure Binding where
  name : String
  line : Nat
  /-- False until the initializer has been passed. -/
  ready : Bool
  used : Bool
deriving DecidableEq

/-- Names in the order of their declarations; the place of a name in that order is its slot. -/
abbrev Scope := List Binding

namespace Scope

def slot? (s : Scope) (name : String) : Option Nat := s.findIdx? (·.name = name)

/-- The scope with a name more. -/
def declare (s : Scope) (name : String) (line : Nat) : Scope := s ++ [⟨name, line, false, false⟩]

def define (s : Scope) (name : String) : Scope :=
  s.map fun b => if b.name = name then { b with ready := true } else b

/-- Is `name` declared here, but its initializer not passed? -/
def isPending (s : Scope) (name : String) : Bool := s.any fun b => b.name = name && !b.ready

def use (s : Scope) (slot : Nat) : Scope := s.modify slot fun b => { b with used := true }

/-- One report for each name that was never read, in the order of their declarations. -/
def unread (s : Scope) : List Diagnostic :=
  (s.filter fun b => !b.used).map fun b => ⟨b.line, .scope (.unused b.name)⟩

/-- A scope made for `this` or `super`, which need not be read. -/
def implicit (name : String) (line : Nat) : Scope := [⟨name, line, true, true⟩]

/-- The address of a name, with the innermost scope first. -/
def address? : List Scope → String → Option Address
  | [], _ => none
  | s :: outer, name =>
    match s.slot? name with
    | some slot => some ⟨0, slot⟩
    | none => (address? outer name).map Address.outward

/-- Marks the name at an address as read. -/
def useAt (scopes : List Scope) (a : Address) : List Scope :=
  scopes.modify a.depth fun s => s.use a.slot

end Scope

end Lox
