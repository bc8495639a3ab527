import Lox.Grammar.Program
import Lox.Machine.Evaluation
import Lox.Scope.Resolver

namespace Lox

/-- An allowance that no program uses up in practice. -/
def ample : Nat := Nat.pow 2 60

inductive Outcome where
  | done
  /-- Faults of the text; nothing has run. -/
  | rejected (ds : List Diagnostic)
  | failed (e : RuntimeError)
  | exhausted

structure Session where
  machine : Machine
  lint : Lint
  /-- Warnings that have not been taken yet. -/
  warnings : List Diagnostic
  /-- The first identity that no node has taken. -/
  nextId : Nat

namespace Session

def new (lint : Lint) (clock : Clock) : Session := ⟨.new clock, lint, [], 0⟩

def setEchoes (s : Session) (echoes : Bool) : Session :=
  { s with machine := { s.machine with echoes } }

def takeWarnings (s : Session) : List Diagnostic × Session := (s.warnings, { s with warnings := [] })

/-- What has been printed since it was last taken. -/
def takeOutput (s : Session) : String × Session :=
  (s.machine.output, { s with machine := { s.machine with output := "" } })

def interpret (n : Nat) (program : List Stmt) (s : Session) : Outcome × Session :=
  match Machine.interpret n program s.machine with
  | .ok _ machine => (.done, { s with machine })
  | .error (.error e) machine => (.failed e, { s with machine })
  | .error .exhausted machine => (.exhausted, { s with machine })

/-- A text runs only if nothing is wrong with it before it runs. -/
def run (n : Nat) (source : String) (s : Session) : Outcome × Session :=
  let reading := readProgram source s.nextId
  let s := { s with nextId := reading.nextId }
  match reading.result with
  | .error ds => (.rejected ds, s)
  | .ok program =>
    match resolve s.lint program with
    | .error ds => (.rejected ds, s)
    | .ok r =>
      interpret n program { s with
        machine := s.machine.noteResolution r
        warnings := s.warnings ++ r.warnings }

end Session

/-- What a lone expression comes to on a machine of its own. -/
def calculate (n : Nat) (lint : Lint) (clock : Clock) (e : Expr) :
    Except (List Diagnostic) (EStateM.Result Stop Machine Value) :=
  match resolve lint [.expression e] with
  | .error ds => .error ds
  | .ok r => .ok (Machine.evaluate n e ((Machine.new clock).noteResolution r))

end Lox
