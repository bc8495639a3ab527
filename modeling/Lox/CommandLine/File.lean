import Lox.CommandLine.Arguments
import Lox.CommandLine.Report
import Lox.Text.Quoted

namespace Lox.CommandLine

/-- An error of the operating system. -/
structure SystemError where
  number : Nat
  text : String
deriving DecidableEq

namespace SystemError

def display (e : SystemError) : String := e.text ++ " (os error " ++ toString e.number ++ ")"

/-- What a path may lead to instead of a file can be written as the number of the error. -/
instance : OfNat SystemError 2 := ⟨⟨2, "No such file or directory"⟩⟩

instance : OfNat SystemError 20 := ⟨⟨20, "Not a directory"⟩⟩

instance : OfNat SystemError 21 := ⟨⟨21, "Is a directory"⟩⟩

instance : OfNat SystemError 36 := ⟨⟨36, "File name too long"⟩⟩

end SystemError

/-- Why the bytes of a file are not to be had. -/
inductive FileFault where
  | opening (cause : SystemError)
  | reading (cause : SystemError)
deriving DecidableEq

/-- The report on the text of a file, or on why there is none. -/
def ofFile (path : String) (contents : Except FileFault (List UInt8)) (task : String → Report) :
    Report :=
  match contents with
  | .error (.opening cause) =>
    breakdown ("Failed to open file " ++ Text.quoted path) (some cause.display)
  | .error (.reading cause) =>
    breakdown ("Failed to read file " ++ Text.quoted path) (some cause.display)
  | .ok bytes =>
    match Utf8.decode bytes with
    | .error fault =>
      breakdown ("File " ++ Text.quoted path ++ " is not valid UTF-8") (some fault.message)
    | .ok source => task source

def noInput : Report := ⟨.exit Status.success, "No input filepath was provided. Exiting...\n", ""⟩

/-- What a task makes of a source text. A conversation has no file. -/
def Request.onSource (r : Request) (clock : Clock) : String → Report :=
  match r.task with
  | .tokenize => tokenize r.json
  | .parse => parse r.json
  | .evaluate => evaluate r.lint clock
  | .run => run r.lint clock
  | .repl => fun _ => noInput

/-- The report on a request, where `read` gives the contents of files. -/
def Request.report (r : Request) (clock : Clock) (read : String → Except FileFault (List UInt8))
    (input : List UInt8) : Report :=
  match r.task, r.file with
  | .repl, _ => repl r.lint clock input
  | _, none => noInput
  | _, some path => ofFile path (read path) (r.onSource clock)

def versionText : String := "rox 0.1.0\n"

def usageReport (fault : UsageFault) : Report :=
  ⟨.exit Status.usage, "", "error: " ++ fault.message ++ "\n"⟩

end Lox.CommandLine
