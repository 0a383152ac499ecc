/-
# The program

Reads the file that a command names or the lines of the standard input, lets
`perform` compute the report, and writes it.
-/

import LoxLang.CommandLine.Report
import Std.Time.DateTime.Timestamp

namespace LoxLang.CommandLine

/-- The limit on calls in progress that programs run under. -/
def callLimit : Option Nat := some maxCallDepth

/-- More fuel than any program can use up in practice. -/
def programFuel : Nat := 1 <<< 60

/-- The time of day in microseconds. -/
def currentTime : IO Nat := do
  let now ← Std.Time.Timestamp.now
  return now.toNanosecondsSinceUnixEpoch.toInt.toNat / 1000

/-- Read a file, or tell why it cannot be read. -/
def readBytes (file : String) : IO (Except FileFault ByteArray) := do
  try
    return .ok (← IO.FS.readBinFile file)
  catch
    | .inappropriateType _ 21 _ => return .error .isDirectory
    | .inappropriateType _ _ _ => return .error .notDirectory
    | .permissionDenied _ _ _ => return .error .denied
    | .invalidArgument _ _ _ => return .error .nameTooLong
    | _ => return .error .missing

/-- Read the bytes of a line up to its newline or the end of the input. -/
partial def readLine (stdin : IO.FS.Stream) (line : ByteArray) : IO ByteArray := do
  let byte ← stdin.read 1
  let line := line ++ byte
  if byte.isEmpty || byte.toList = [10] then return line
  readLine stdin line

/-- Write to both standard streams. -/
def writeBoth (stdout stderr : ByteArray) : IO Unit := do
  let out ← IO.getStdout
  let err ← IO.getStderr
  out.write stdout
  out.flush
  err.write stderr

/-- Write what has been added to both streams since a session was as it was `before`. -/
def writeAdded (before : Session) (stdout stderr : ByteArray) : IO Unit :=
  writeBoth (stdout.extract before.machine.output.written.size stdout.size)
    (stderr.extract before.diagnostics.written.size stderr.size)

/-- Run lines of the standard input, each as soon as it is read. -/
partial def converse (session : Session) : IO UInt32 := do
  let asked := Report.prompted session
  writeAdded session asked.machine.output.written asked.diagnostics.written
  let line ← readLine (← IO.getStdin) ByteArray.empty
  if line.isEmpty then return 0
  match Report.turn callLimit programFuel asked (String.fromUTF8? line) with
  | none => return 1
  | some (.error report) =>
    writeAdded asked report.stdout report.stderr
    return report.code.toUInt32
  | some (.ok after) =>
    writeAdded asked after.machine.output.written after.diagnostics.written
    converse after

end LoxLang.CommandLine

open LoxLang LoxLang.CommandLine

/-- Do what the arguments ask for. -/
def main (arguments : List String) : IO UInt32 := do
  match Invocation.ofArguments? arguments with
  | none =>
    IO.eprintln "usage: [--log] [tokenize FILE [--json] | parse FILE [--json] | run FILE | repl]"
    return 2
  | some invocation =>
    if invocation.log then IO.FS.writeFile logFile ""
    let time ← currentTime
    match invocation.command.file? with
    | none => converse (Report.session (.ticking time))
    | some file =>
      let bytes ← readBytes file
      match perform callLimit programFuel (.ticking time) (fun _ => bytes) ByteArray.empty
          invocation.command with
      | none => return 1
      | some report =>
        writeBoth report.stdout report.stderr
        return report.code.toUInt32
