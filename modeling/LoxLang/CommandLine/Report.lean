/-
# Reports

What each command leaves behind: an exit code, and what is written to the standard
output and the standard error. A report is computed from the command, the file it
names and the input; performing it is left to the program around it.
-/

import LoxLang.CommandLine.Invocation
import LoxLang.CommandLine.SourceFile
import LoxLang.Session
import LoxLang.Token.Listing
import LoxLang.Tree.Document
import LoxLang.Tree.Outline

namespace LoxLang.CommandLine

/-- What a command leaves behind. -/
structure Report where
  /-- The exit code. -/
  code : Nat
  /-- What is written to the standard output. -/
  stdout : ByteArray
  /-- What is written to the standard error. -/
  stderr : ByteArray

namespace Report

/-- The exit code after a syntax error. -/
def syntaxErrorCode : Nat := 65

/-- The exit code after a runtime error. -/
def runtimeErrorCode : Nat := 70

/-- The exit code after anything else that went wrong. -/
def failureCode : Nat := 1

/-- The report of a command whose file cannot be read. -/
def ofFileFault (file : String) (fault : FileFault) : Report :=
  ⟨failureCode, ByteArray.empty, (fault.report file).toUTF8⟩

/-- The lines of a text stream. -/
def lines (texts : List String) : ByteArray :=
  (String.join (texts.map (· ++ "\n"))).toUTF8

/-- The report of listing the tokens of a source. Tokens are listed also if there
are errors between them. -/
def tokenize (source : String) (json : Bool) : Report :=
  let items := Token.scan source
  let tokens := Token.ofScan items
  let errors := LexError.ofScan items
  { code := if errors.isEmpty then 0 else syntaxErrorCode
    stdout := lines (if json then [(Token.document tokens).pretty] else tokens.map Token.listing)
    stderr := lines (errors.map (·.diagnostic.text)) }

/-- The report of outlining the statements of a source. Nothing is outlined if there
is any error. -/
def parse (source : String) (json : Bool) : Report :=
  let items := Token.scan source
  let lexErrors := (LexError.ofScan items).map (·.diagnostic.text)
  match Program.ofTokens (Token.ofScan items) with
  | .error errors =>
    { code := syntaxErrorCode
      stdout := ByteArray.empty
      stderr := lines (lexErrors ++ errors.map (·.diagnostic.text)) }
  | .ok program =>
    if lexErrors.isEmpty then
      { code := 0
        stdout := lines (if json then [program.document.pretty] else program.map Stmt.outline)
        stderr := ByteArray.empty }
    else
      { code := syntaxErrorCode
        stdout := ByteArray.empty
        stderr := lines lexErrors }

/-- What a session has written, with an exit code. -/
def ofSession (code : Nat) (session : Session) : Report :=
  ⟨code, session.machine.output.written, session.diagnostics.written⟩

/-- The exit code for the errors that a session remembers. -/
def exitCode (session : Session) : Nat :=
  if session.hadError then syntaxErrorCode
  else if session.hadRuntimeError then runtimeErrorCode
  else 0

/-- The session of a command, whose streams take everything. -/
def session (clock : Clock) : Session :=
  .start clock .unlimited .unlimited

/-- The report of running a source, unless it runs out of fuel. -/
def run (limit : Option Nat) (fuel : Nat) (clock : Clock) (source : String) : Option Report :=
  match (session clock).run limit fuel source with
  | (.outOfFuel, _) => none
  | (_, after) => some (ofSession (exitCode after) after)

/-! ## Running the standard input -/

/-- What is written before a line is read. -/
def prompt : String := "> "

/-- A session that has asked for a line. -/
def prompted (session : Session) : Session :=
  let output := (session.machine.output.write prompt.toUTF8).2
  { session with machine := { session.machine with output := output } }

/-- What a line does to a session: its errors are reported and then forgotten. A
line that is no text ends the command. -/
def turn (limit : Option Nat) (fuel : Nat) (session : Session) (line : Option String) :
    Option (Except Report Session) :=
  match line with
  | none =>
    let message := "Error: " ++ FileFault.message .notText ++ "\n"
    some (.error ⟨failureCode, session.machine.output.written,
      session.diagnostics.written ++ message.toUTF8⟩)
  | some source =>
    match session.run limit fuel source with
    | (.outOfFuel, _) => none
    | (_, after) => some (.ok after.reset)

/-- The report of running lines one by one on one session, unless one of them runs
out of fuel. A line is asked for before each of them and once more at the end. -/
def repl (limit : Option Nat) (fuel : Nat) (session : Session) :
    List (Option String) → Option Report
  | [] => some (ofSession 0 (prompted session))
  | line :: rest =>
    match turn limit fuel (prompted session) line with
    | none => none
    | some (.error report) => some report
    | some (.ok after) => repl limit fuel after rest

end Report

/-- The lines of the input, each with the newline that ends it. -/
def splitLines : List UInt8 → List (List UInt8)
  | [] => []
  | byte :: rest =>
    if byte = 10 then [byte] :: splitLines rest
    else
      match splitLines rest with
      | [] => [[byte]]
      | line :: lines => (byte :: line) :: lines

/-- The report of a command, given the clock, how files are read and the standard
input. There is none if running a program takes more fuel than is given. -/
def perform (limit : Option Nat) (fuel : Nat) (clock : Clock)
    (read : String → Except FileFault ByteArray) (stdin : ByteArray) (command : Command) :
    Option Report :=
  let withSource (file : String) (report : String → Option Report) : Option Report :=
    match readText read file with
    | .ok source => report source
    | .error fault => some (.ofFileFault file fault)
  match command with
  | .tokenize file json => withSource file fun source => some (.tokenize source json)
  | .parse file json => withSource file fun source => some (.parse source json)
  | .run file => withSource file (Report.run limit fuel clock)
  | .repl =>
    Report.repl limit fuel (Report.session clock)
      ((splitLines stdin.toList).map fun line => String.fromUTF8? ⟨line.toArray⟩)

end LoxLang.CommandLine
