import Lox.CommandLine.File
import Std.Time.DateTime.Timestamp

namespace Lox.CommandLine

/-- The system's number for an error, and its text. -/
def systemError : IO.Error → SystemError
  | .noFileOrDirectory _ number text | .interrupted _ number text => ⟨number.toNat, text⟩
  | .alreadyExists _ number text | .invalidArgument _ number text
  | .permissionDenied _ number text | .resourceExhausted _ number text
  | .inappropriateType _ number text | .noSuchThing _ number text => ⟨number.toNat, text⟩
  | .otherError number text | .resourceBusy number text | .resourceVanished number text
  | .unsupportedOperation number text | .hardwareFault number text
  | .unsatisfiedConstraints number text | .illegalOperation number text
  | .protocolError number text | .timeExpired number text => ⟨number.toNat, text⟩
  | .unexpectedEof | .userError _ => ⟨5, "Input/output error"⟩

def readBytes (path : String) : IO (Except FileFault (List UInt8)) := do
  match ← (IO.FS.Handle.mk path .read).toBaseIO with
  | .error e => return .error (.opening (systemError e))
  | .ok handle =>
    match ← handle.readBinToEnd.toBaseIO with
    | .error e => return .error (.reading (systemError e))
    | .ok bytes => return .ok bytes.toList

/-- A clock that starts at the seconds of universal time since the epoch, to the microsecond. A run
is computed without a look at the time, so each call finds the clock one microsecond on. -/
def startClock : IO Clock := do
  let now := (← Std.Time.Timestamp.now).toDurationSinceUnixEpoch
  let micros := now.nano.val / 1000
  return .ticking (Float.ofInt now.second.val + Float.ofInt micros / 1e6) 0.000001

def writeReport (r : Report) : IO Unit := do
  let out ← IO.getStdout
  out.putStr r.out
  out.flush
  (← IO.getStderr).putStr r.err

/-- Answers every line as it comes. -/
partial def converseLive (s : Session) : IO UInt32 := do
  let out ← IO.getStdout
  out.putStr promptText
  out.flush
  match ← (do (← IO.getStdin).getLine : IO String).toBaseIO with
  | .error _ =>
    (← IO.getStderr).putStr undecodable.err
    return undecodable.status.toUInt32
  | .ok line =>
    if line.isEmpty then
      out.putStr "\n"
      return Status.success.toUInt32
    else
      let (answer, s) := respond (withoutEnd line) s
      writeReport answer
      if answer.ending = .unended then
        return answer.status.toUInt32
      converseLive s

def answer (r : Request) : IO UInt32 := do
  if r.log then
    IO.FS.writeFile "app.log" ""
  let clock ← startClock
  match r.task, r.file with
  | .repl, _ => converseLive (newPrompt r.lint clock)
  | _, none =>
    writeReport noInput
    return noInput.status.toUInt32
  | _, some path =>
    let report := ofFile path (← readBytes path) (r.onSource clock)
    writeReport report
    return report.status.toUInt32

end Lox.CommandLine

open Lox.CommandLine in
def main (arguments : List String) : IO UInt32 := do
  match ofArguments arguments with
  | .error fault =>
    writeReport (usageReport fault)
    return Status.usage.toUInt32
  | .ok .version =>
    (← IO.getStdout).putStr versionText
    return Status.success.toUInt32
  | .ok (.request r) => answer r
