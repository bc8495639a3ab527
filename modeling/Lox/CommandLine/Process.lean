import Lox.CommandLine.Report
import Lox.Token.Scanner

namespace Lox.CommandLine

inductive Stream where
  | out
  | err

/-- What has gone to the two streams. -/
structure Streams where
  out : String
  err : String

def Streams.write (s : Streams) (text : String) : Stream → Streams
  | .out => { s with out := s.out ++ text }
  | .err => { s with err := s.err ++ text }

/-- A task, which comes to its end or ends before it. -/
abbrev Process := EStateM TaskEnding Streams

namespace Process

def write (stream : Stream) (text : String) : Process Unit := modify fun s => s.write text stream

def writeLine (stream : Stream) (text : String) : Process Unit := write stream (text ++ "\n")

def exit (status : Nat) : Process Unit := throw (.exit status)

/-- What is left of a task that starts with empty streams. -/
def report (p : Process Unit) : Report :=
  match p ⟨"", ""⟩ with
  | .ok () s => ⟨.exit Status.success, s.out, s.err⟩
  | .error ending s => ⟨ending, s.out, s.err⟩

/-- A text is sliced within a character. -/
def crashed : Nat := 101

/-- Visits the items of at most `n` calls of the scanner, up to the call that yields none. -/
def visitItems {α : Type} (visit : α → Item → Process α) : Nat → Scanner → α → Process α
  | 0, _, a => return a
  | n + 1, s, a =>
    match s.next with
    | none => throw (.exit crashed)
    | some (none, _) => return a
    | some (some item, s) => do visitItems visit n s (← visit a item)

/-- Lists a token at once unless all are to be listed in the end, and tells of a fault at once. -/
def visitItem (json : Bool) : List Token × Bool → Item → Process (List Token × Bool)
  | (ts, sound), .ok t => do
    if !json then
      writeLine .out t.listing
    return (ts ++ [t], sound)
  | (ts, _), .error d => do
    writeLine .err d.display
    return (ts, false)

/-- Every item but the last takes a byte, and one call more yields none. -/
def tokenize (json : Bool) (source : String) : Process Unit := do
  let s := Scanner.new source
  let (ts, sound) ← visitItems (visitItem json) (s.bytes.length + 2) s ([], true)
  if json then
    writeLine .out (Json.array (ts.map Token.document)).render
  if !sound then
    exit Status.rejected

/-- What can go wrong with a program: every diagnostic of its text, a single one, or an error as it
runs. -/
inductive Failure where
  | compile (ds : List Diagnostic)
  | single (d : Diagnostic)
  | runtime (e : RuntimeError)

/-- Tells of a failure, and picks the status to exit with. -/
def explain : Failure → Process Nat
  | .compile ds => do
    forM ds fun d => writeLine .err d.display
    return Status.rejected
  | .single d => do
    writeLine .err d.display
    return Status.rejected
  | .runtime e => do
    writeLine .err e.display
    return Status.failed

def parse (json : Bool) (source : String) : Process Unit :=
  match (readProgram source 0).result with
  | .ok program =>
    if json then
      writeLine .out (Json.array (statementDocuments program)).render
    else
      forM program fun s => writeLine .out s.symbolic
  | .error ds => do exit (← explain (.compile ds))

/-- What has gone wrong in a run, once the run has ended. -/
def failure? : Outcome → Process (Option Failure)
  | .done => return none
  | .rejected ds => return some (.compile ds)
  | .failed e => return some (.runtime e)
  | .exhausted => throw .unended

/-- What the program prints comes first, then the warnings, then what is wrong. -/
def run (lint : Lint) (clock : Clock) (source : String) : Process Unit := do
  let (outcome, s) := (Session.new lint clock).run ample source
  let (out, s) := s.takeOutput
  write .out out
  let failure ← failure? outcome
  let (warnings, _) := s.takeWarnings
  forM warnings fun d => writeLine .err ("Warning: " ++ d.display)
  match failure with
  | none => return
  | some f => exit (← explain f)

end Process

end Lox.CommandLine
