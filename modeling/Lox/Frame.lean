import Lox.Scope

namespace Lox

/-- A handle on a frame, which any number of closures may share. -/
structure FrameRef where
  index : Nat
deriving DecidableEq

structure Frame (α : Type) where
  enclosing : Option FrameRef
  cells : Array α

/-- Every frame that was ever made. -/
structure Frames (α : Type) where
  frames : Array (Frame α)

namespace Frames

variable {α : Type}

def empty : Frames α := ⟨#[]⟩

def get? (s : Frames α) (f : FrameRef) : Option (Frame α) := s.frames[f.index]?

/-- A new frame without cells. -/
def create (s : Frames α) (enclosing : Option FrameRef) : FrameRef × Frames α :=
  (⟨s.frames.size⟩, ⟨s.frames.push ⟨enclosing, #[]⟩⟩)

/-- The number of cells of a frame. -/
def size (s : Frames α) (f : FrameRef) : Nat :=
  match s.get? f with
  | some frame => frame.cells.size
  | none => 0

/-- Appends a cell; its slot is the number of cells before it. -/
def define (s : Frames α) (f : FrameRef) (v : α) : Nat × Frames α :=
  (s.size f, ⟨s.frames.modify f.index fun frame => { frame with cells := frame.cells.push v }⟩)

/-- The frame `depth` links out. -/
def ancestor? (s : Frames α) (f : FrameRef) : Nat → Option FrameRef
  | 0 => some f
  | depth + 1 =>
    match s.get? f with
    | some ⟨some outer, _⟩ => s.ancestor? outer depth
    | _ => none

def cell? (s : Frames α) (f : FrameRef) (slot : Nat) : Option α :=
  match s.get? f with
  | some frame => frame.cells[slot]?
  | none => none

/-- Reads a cell. Where there is none, the address is handed back, with no slot if even its frame
is missing. -/
def getAt (s : Frames α) (f : FrameRef) (a : Address) : Except Address α :=
  match s.ancestor? f a.depth with
  | none => .error ⟨a.depth, 0⟩
  | some g =>
    match s.cell? g a.slot with
    | some v => .ok v
    | none => .error a

/-- The frame that holds the cell at an address. -/
def locate (s : Frames α) (f : FrameRef) (a : Address) : Except Address FrameRef :=
  match s.ancestor? f a.depth with
  | none => .error ⟨a.depth, 0⟩
  | some g => if a.slot < s.size g then .ok g else .error a

/-- Overwrites a cell of the frame `g`. -/
def set (s : Frames α) (g : FrameRef) (slot : Nat) (v : α) : Frames α :=
  ⟨s.frames.modify g.index fun frame =>
    { frame with cells := frame.cells.setIfInBounds slot v }⟩

/-- Overwrites the cell at an address, if there is one. -/
def assignAt (s : Frames α) (f : FrameRef) (a : Address) (v : α) : Except Address (Frames α) :=
  (s.locate f a).map fun g => s.set g a.slot v

end Frames

end Lox
