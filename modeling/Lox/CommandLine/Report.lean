import Lox.Session
import Lox.Tree.Document
import Lox.Tree.Symbolic
import Lox.Text.Utf8

namespace Lox.CommandLine

/-- How a task ends. Where the allowance is used up first it is not known to end at all. -/
inductive TaskEnding where
  | exit (status : Nat)
  | unended
deriving DecidableEq

instance (status : Nat) : OfNat TaskEnding status := ⟨.exit status⟩

structure Report where
  ending : TaskEnding
  out : String
  err : String
deriving DecidableEq

namespace Status

def success : Nat := 0

/-- The task could not get at the program. -/
def failure : Nat := 1

def usage : Nat := 2

/-- Something is wrong with the program before it runs. -/
def rejected : Nat := 65

def failed : Nat := 70

end Status

/-- The number that the system is told. What is not known to end is given up as a failure. -/
def Report.status (r : Report) : Nat :=
  match r.ending with
  | .exit status => status
  | .unended => Status.failure

def lines (texts : List String) : String := String.join (texts.map (· ++ "\n"))

def diagnosticLines (ds : List Diagnostic) : String := lines (ds.map Diagnostic.display)

def warningLines (ds : List Diagnostic) : String := lines (ds.map ("Warning: " ++ ·.display))

def rejection (ds : List Diagnostic) : Report := ⟨.exit Status.rejected, "", diagnosticLines ds⟩

/-- The status for an outcome, and what the outcome adds to the error stream. -/
def outcomeText? : Outcome → Option (Nat × String)
  | .done => some (Status.success, "")
  | .rejected ds => some (Status.rejected, diagnosticLines ds)
  | .failed e => some (Status.failed, e.display ++ "\n")
  | .exhausted => none

/-- A failure that has nothing to do with the program. -/
def breakdown (message : String) (cause : Option String) : Report :=
  ⟨.exit Status.failure, "", "Error: " ++ message ++ match cause with
    | some cause => "\n\nCaused by:\n    " ++ cause ++ "\n"
    | none => "\n"⟩

def tokenize (json : Bool) (source : String) : Report :=
  let items := scan source
  let out :=
    if json then (Json.array ((tokens items).map Token.document)).render ++ "\n"
    else lines ((tokens items).map Token.listing)
  ⟨.exit (if (faults items).isEmpty then Status.success else Status.rejected), out,
    diagnosticLines (faults items)⟩

def parse (json : Bool) (source : String) : Report :=
  match (readProgram source 0).result with
  | .error ds => rejection ds
  | .ok program =>
    ⟨.exit Status.success,
      if json then (Json.array (statementDocuments program)).render ++ "\n"
      else lines (program.map Stmt.symbolic), ""⟩

def evaluate (lint : Lint) (clock : Clock) (source : String) : Report :=
  match (readExpression source 0).result with
  | .error ds => rejection ds
  | .ok e =>
    match calculate ample lint clock e with
    | .error ds => rejection ds
    | .ok (.ok v m) => ⟨.exit Status.success, m.output ++ v.text ++ "\n", ""⟩
    | .ok (.error (.error e) m) => ⟨.exit Status.failed, m.output, e.display ++ "\n"⟩
    | .ok (.error .exhausted m) => ⟨.unended, m.output, ""⟩

/-- Runs a text and takes what it printed. The warnings about it are told of when it has ended, and
before an error. -/
def respond (source : String) (s : Session) : Report × Session :=
  let (outcome, s) := s.run ample source
  let (out, s) := s.takeOutput
  match outcomeText? outcome with
  | none => (⟨.unended, out, ""⟩, s)
  | some (status, err) =>
    let (warnings, s) := s.takeWarnings
    (⟨.exit status, out, warningLines warnings ++ err⟩, s)

def run (lint : Lint) (clock : Clock) (source : String) : Report :=
  (respond source (.new lint clock)).1

/-- Cuts bytes behind every newline. -/
def byteLines : List UInt8 → List (List UInt8)
  | [] => []
  | b :: bs =>
    if b = 10 then
      [b] :: byteLines bs
    else
      match byteLines bs with
      | [] => [[b]]
      | line :: more => (b :: line) :: more

/-- A line without its newline, and without a carriage return before that. -/
def withoutEnd (line : String) : String :=
  match line.toList.reverse with
  | '\n' :: '\r' :: cs => String.ofList cs.reverse
  | '\n' :: cs => String.ofList cs.reverse
  | _ => line

def promptText : String := "> "

def undecodable : Report := breakdown "stream did not contain valid UTF-8" none

/-- A conversation: a prompt before every line, and one before the end. Errors do not end it, but
there is no prompt behind an answer that is not known to end. -/
def converse (s : Session) : List (Except Utf8.Fault String) → Report
  | [] => ⟨.exit Status.success, promptText ++ "\n", ""⟩
  | .error _ :: _ => { undecodable with out := promptText }
  | .ok line :: more =>
    let (answer, s) := respond (withoutEnd line) s
    if answer.ending = .unended then
      { answer with out := promptText ++ answer.out }
    else
      let rest := converse s more
      ⟨rest.ending, promptText ++ answer.out ++ rest.out, answer.err ++ rest.err⟩

def newPrompt (lint : Lint) (clock : Clock) : Session := (Session.new lint clock).setEchoes true

def repl (lint : Lint) (clock : Clock) (input : List UInt8) : Report :=
  converse (newPrompt lint clock) ((byteLines input).map Utf8.decode)

end Lox.CommandLine
