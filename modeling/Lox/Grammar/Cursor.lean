import Lox.Tree
import Lox.Diagnostic

namespace Lox.Grammar

structure Cursor where
  rest : List Token
  /-- The loops around this place within the same function. -/
  loops : Nat
  /-- What has been recorded so far, in order. -/
  faults : List Diagnostic
  nextId : Nat

/-- Why a production ends without a tree: a fault, or an allowance that is used up. -/
inductive Halt where
  | fault (d : Diagnostic)
  | exhausted

/-- A production yields a tree or halts with a fault; a fault that need not end it is only recorded.
The first end of input, or else the end of the list, is never passed. -/
abbrev Parse := EStateM Halt Cursor

/-- Stands behind a list that does not end by itself. -/
def endOfInput : Token := ⟨.eof, "", 0⟩

def Cursor.head (c : Cursor) : Token := c.rest.head?.getD endOfInput

def head : Parse Token := return (← get).head

def kind : Parse Kind := return (← head).kind

/-- Steps over the next token; only used where there is one before the end of input. -/
def advance : Parse Unit := modify fun c => { c with rest := c.rest.tail }

def mint : Parse Nat := modifyGet fun c => (c.nextId, { c with nextId := c.nextId + 1 })

def record (line : Nat) (fault : GrammarFault) : Parse Unit :=
  modify fun c => { c with faults := c.faults ++ [⟨line, .grammar fault⟩] }

def halt (line : Nat) (fault : GrammarFault) : Parse α := throw (.fault ⟨line, .grammar fault⟩)

/-- Halts at the next token. -/
def haltHere (fault : GrammarFault) : Parse α := do halt (← head).line fault

/-- Steps over the next token if it is of kind `k`. -/
def accept? (k : Kind) : Parse (Option Token) := do
  let t ← head
  if t.kind = k then
    advance
    return some t
  else
    return none

def accept (k : Kind) : Parse Bool := return (← accept? k).isSome

def expect (k : Kind) (item : String) : Parse Token := do
  match ← accept? k with
  | some t => return t
  | none => haltHere (.expected item)

/-- Runs `p` with another number of loops around it, whether or not it yields. -/
def withLoops (loops : Nat → Nat) (p : Parse α) : Parse α := fun c =>
  match p { c with loops := loops c.loops } with
  | .ok a c' => .ok a { c' with loops := c.loops }
  | .error e c' => .error e { c' with loops := c.loops }

/-- Runs `p` with one more loop around it. That loop is left again whether or not `p` yields. -/
def withinLoop (p : Parse α) : Parse α := fun c =>
  match p { c with loops := c.loops + 1 } with
  | .ok a c' => .ok a { c' with loops := c'.loops - 1 }
  | .error e c' => .error e { c' with loops := c'.loops - 1 }

/-- Items until one is missing; `item i` reads the one before which there are `i`. There are at most
as many as the list of tokens is long. -/
def manyAlong (item : Nat → Parse (Option α)) : List Token → Nat → Parse (List α)
  | [], i => do
    match ← item i with
    | none => return []
    | some _ => throw .exhausted
  | _ :: ts, i => do
    match ← item i with
    | none => return []
    | some a => return a :: (← manyAlong item ts (i + 1))

/-- Every item takes a token, so there are no more items than tokens. -/
def many (item : Nat → Parse (Option α)) (i : Nat) : Parse (List α) := do
  manyAlong item (← get).rest i

/-- Extends a tree for as long as `step` does, at most as often as the list of tokens is long. -/
def extendAlong (step : α → Parse (Option α)) : List Token → α → Parse α
  | [], a => do
    match ← step a with
    | none => return a
    | some _ => throw .exhausted
  | _ :: ts, a => do
    match ← step a with
    | none => return a
    | some b => extendAlong step ts b

/-- Every step takes a token. -/
def extend (step : α → Parse (Option α)) (a : α) : Parse α := do
  extendAlong step (← get).rest a

/-- Does a statement start with this word? -/
def startsStatement : Kind → Bool
  | .class | .fun | .var | .for | .if | .while | .print | .return => true
  | _ => false

/-- From behind `last` to the next boundary of statements: a semicolon has been passed, a
statement starts, or the input ends. -/
def toBoundary (last : Kind) : List Token → List Token
  | [] => []
  | t :: ts =>
    if t.kind = .eof ∨ last = .semicolon ∨ startsStatement t.kind then t :: ts
    else toBoundary t.kind ts

/-- Drops the token at which a production halted, and all up to the next boundary. -/
def resume : List Token → List Token
  | [] => []
  | t :: ts => if t.kind = .eof then t :: ts else toBoundary t.kind ts

/-- A fault within `p` is recorded, and reading goes on at the next boundary. -/
def recover (p : Parse α) : Parse (Option α) := fun c =>
  match p c with
  | .ok a c' => .ok (some a) c'
  | .error (.fault d) c' => .ok none { c' with faults := c'.faults ++ [d], rest := resume c'.rest }
  | .error .exhausted c' => .error .exhausted c'

/-- The productions one level of nesting further in. -/
structure Inner where
  expression : Parse Expr
  statement : Parse Stmt
  declaration : Parse (Option Stmt)

end Lox.Grammar
