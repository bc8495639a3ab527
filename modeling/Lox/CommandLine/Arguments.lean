import Lox.Scope.Resolution

namespace Lox.CommandLine

inductive Task where
  | tokenize
  | parse
  | evaluate
  | run
  | repl
deriving DecidableEq

namespace Task

def ofName? : String → Option Task
  | "tokenize" => some tokenize
  | "parse" => some parse
  | "evaluate" => some evaluate
  | "run" => some run
  | "repl" => some repl
  | _ => none

def takesFile : Task → Bool
  | repl => false
  | _ => true

def takesJson : Task → Bool
  | tokenize | parse => true
  | _ => false

end Task

inductive UsageFault where
  | noTask
  | unexpected (argument : String)
  | repeated (option : String)
  | badValue (value : String)
deriving DecidableEq

def UsageFault.message : UsageFault → String
  | .noTask => "a command is required"
  | .unexpected argument => "unexpected argument '" ++ argument ++ "'"
  | .repeated option => "the argument '" ++ option ++ "' cannot be used multiple times"
  | .badValue value => "invalid value '" ++ value ++ "' for '--unused-variables'"

/-- The options at one of their two places. -/
structure Given where
  log : Bool
  lint : Option Lint
  json : Bool
  file : Option String

def Given.nothing : Given := ⟨false, none, false, none⟩

structure Request where
  task : Task
  file : Option String
  json : Bool
  log : Bool
  lint : Lint

inductive Invocation where
  | version
  | request (r : Request)

def lintOfName? : String → Option Lint
  | "allow" => some .allow
  | "warn" => some .warn
  | "deny" => some .deny
  | _ => none

namespace Given

def setLog (g : Given) : Except UsageFault Given :=
  if g.log then .error (.repeated "--log") else .ok { g with log := true }

def setLint (g : Given) (value : String) : Except UsageFault Given :=
  match g.lint, lintOfName? value with
  | some _, _ => .error (.repeated "--unused-variables")
  | none, none => .error (.badValue value)
  | none, some lint => .ok { g with lint := some lint }

def setJson (g : Given) (task : Task) : Except UsageFault Given :=
  if !task.takesJson then .error (.unexpected "--json")
  else if g.json then .error (.repeated "--json")
  else .ok { g with json := true }

/-- A file has a name, and there is one at most. -/
def setFile (g : Given) (task : Task) (file : String) : Except UsageFault Given :=
  if !task.takesFile || g.file.isSome || file.isEmpty then .error (.unexpected file)
  else .ok { g with file := some file }

/-- Behind the double dash every argument is a file. -/
def addFiles (g : Given) (task : Task) (files : List String) : Except UsageFault Given :=
  files.foldlM (fun g file => g.setFile task file) g

end Given

/-- The value of `--unused-variables=value`. -/
def attachedLint? (argument : String) : Option String :=
  ("--unused-variables=".toList.isPrefixOf? argument.toList).map String.ofList

/-- A single dash is a file name. -/
def isOption (argument : String) : Bool := "-".isPrefixOf argument && argument ≠ "-"

/-- The arguments behind a task. -/
def behindTask (task : Task) (g : Given) : List String → Except UsageFault Given
  | [] => .ok g
  | "--" :: files => g.addFiles task files
  | "--log" :: rest => do behindTask task (← g.setLog) rest
  | "--json" :: rest => do behindTask task (← g.setJson task) rest
  | "--unused-variables" :: value :: rest => do behindTask task (← g.setLint value) rest
  | argument :: rest => do
    match attachedLint? argument with
    | some value => behindTask task (← g.setLint value) rest
    | none =>
      if isOption argument then
        .error (.unexpected argument)
      else
        behindTask task (← g.setFile task argument) rest

/-- An option may stand before the task or behind it; where it does both, the one behind counts. -/
def request (task : Task) (before behind : Given) : Request where
  task := task
  file := behind.file
  json := behind.json
  log := before.log || behind.log
  lint := (behind.lint <|> before.lint).getD .warn

/-- The arguments before a task, and then those behind it. -/
def beforeTask (g : Given) : List String → Except UsageFault Invocation
  | [] => .error .noTask
  | "--log" :: rest => do beforeTask (← g.setLog) rest
  | "--version" :: _ => .ok .version
  | "--unused-variables" :: value :: rest => do beforeTask (← g.setLint value) rest
  | argument :: rest => do
    match attachedLint? argument, Task.ofName? argument with
    | some value, _ => beforeTask (← g.setLint value) rest
    | none, some task => return .request (request task g (← behindTask task .nothing rest))
    | none, none => if "-V".isPrefixOf argument then .ok .version else .error (.unexpected argument)

def ofArguments (arguments : List String) : Except UsageFault Invocation :=
  beforeTask .nothing arguments

end Lox.CommandLine
