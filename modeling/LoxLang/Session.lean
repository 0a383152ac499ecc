/-
# Sessions

A session runs one source after another on the same machine, so that what one
declares the next can use. Syntax errors go to a stream of their own, a runtime
error goes to the output, after what the program printed.

A session remembers that a syntax error was reported, and runs nothing until it is
told to forget it. It fails only if one of its streams cannot be written.
-/

import LoxLang.Evaluation.Basic
import LoxLang.Grammar.Statement
import LoxLang.Token.Scan

namespace LoxLang

/-- A machine, the stream for syntax errors, and what has been reported. -/
structure Session where
  /-- The machine that sources are run on. -/
  machine : Machine
  /-- The stream that syntax errors are written to. -/
  diagnostics : Sink
  /-- A syntax error has been reported since the last reset. -/
  hadError : Bool
  /-- A runtime error has been reported since the last reset. -/
  hadRuntimeError : Bool

namespace Session

/-- A session that has run nothing yet. -/
def start (clock : Clock) (output diagnostics : Sink) : Session :=
  ⟨.start clock output, diagnostics, false, false⟩

/-- Forget the errors that were reported. -/
def reset (session : Session) : Session :=
  { session with hadError := false, hadRuntimeError := false }

/-- Report a syntax error. -/
def report (session : Session) (error : Diagnostic) : Exit SinkFault Unit × Session :=
  match session.diagnostics.report error.text with
  | (fault, diagnostics) =>
    (Exit.ofFault? fault, { session with diagnostics := diagnostics, hadError := true })

/-- Report syntax errors in order, until the stream fails. -/
def reportAll (session : Session) : List Diagnostic → Exit SinkFault Unit × Session
  | [] => (.value (), session)
  | error :: others =>
    match session.report error with
    | (.value _, session) => session.reportAll others
    | stopped => stopped

/-- The session whose output has taken the report of a runtime error. -/
def afterRuntimeError (session : Session) (output : Sink) : Session :=
  { session with machine := { session.machine with output := output }, hadRuntimeError := true }

/-- Report a runtime error on the output. -/
def reportRuntime (session : Session) (error : Diagnostic) : Exit SinkFault Unit × Session :=
  match session.machine.output.report error.text with
  | (fault, output) => (Exit.ofFault? fault, session.afterRuntimeError output)

/-- Execute a program, and report the error it ends with. -/
def execute (limit : Option Nat) (fuel : Nat) (session : Session) (program : Program) :
    Exit SinkFault Unit × Session :=
  match Eval.program limit fuel program session.machine with
  | (.value _, machine) => (.value (), { session with machine := machine })
  | (.outOfFuel, machine) => (.outOfFuel, { session with machine := machine })
  | (.fault (.sink fault), machine) => (.fault fault, { session with machine := machine })
  | (.fault (.program error), machine) =>
    { session with machine := machine }.reportRuntime error.diagnostic

/-- Run a source. All its syntax errors are reported, those of the scan first, and
it is executed only if there are none and none was reported before. -/
def run (limit : Option Nat) (fuel : Nat) (session : Session) (source : String) :
    Exit SinkFault Unit × Session :=
  let items := Token.scan source
  match session.reportAll ((LexError.ofScan items).map LexError.diagnostic) with
  | (.value _, session) =>
    match Program.ofTokens (Token.ofScan items) with
    | .error errors => session.reportAll (errors.map SyntaxError.diagnostic)
    | .ok program =>
      if session.hadError then (.value (), session) else session.execute limit fuel program
  | stopped => stopped

/-- Scan a source and report its lexical errors. The machine is not used. -/
def tokenize (session : Session) (source : String) :
    Exit SinkFault (List Token) × Session :=
  let items := Token.scan source
  match session.reportAll ((LexError.ofScan items).map LexError.diagnostic) with
  | (.value _, session) => (.value (Token.ofScan items), session)
  | (.fault fault, session) => (.fault fault, session)
  | (.outOfFuel, session) => (.outOfFuel, session)

end Session

end LoxLang
