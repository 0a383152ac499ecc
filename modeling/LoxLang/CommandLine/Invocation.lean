/-
# Invocations

What the arguments of a command line ask for. Options are told from names by the
dash they start with. They stand before the command or among its names, each at most
once in either place. A double dash ends the options: all after it are names, also
those that start with a dash. No name is empty.
-/

namespace LoxLang.CommandLine

/-- What a command line asks for. -/
inductive Command
  | /-- List the tokens of a file. -/
    tokenize (file : String) (json : Bool)
  | /-- Outline the statements of a file. -/
    parse (file : String) (json : Bool)
  | /-- Run a file. -/
    run (file : String)
  | /-- Run the lines of the standard input. -/
    repl
  deriving DecidableEq

/-- The file that a command names. -/
def Command.file? : Command → Option String
  | .tokenize file _ => some file
  | .parse file _ => some file
  | .run file => some file
  | .repl => none

/-- A command, and whether a log is asked for. -/
structure Invocation where
  /-- What to do. -/
  command : Command
  /-- Whether to make the log file. -/
  log : Bool
  deriving DecidableEq

/-- The name of the log file. -/
def logFile : String := "app.log"

/-- The option that asks for a log. -/
def logOption : String := "--log"

/-- The option that asks for JSON. -/
def jsonOption : String := "--json"

/-- What ends the options. -/
def separator : String := "--"

/-- Whether an argument is written as an option. A dash alone is a name. -/
def isOption (argument : String) : Bool :=
  match argument.toList with
  | '-' :: _ :: _ => true
  | _ => false

/-- Whether all options are known, and none is given twice. -/
def areOptions (known options : List String) : Bool :=
  decide (options.Nodup ∧ ∀ option ∈ options, option ∈ known)

/-- The command that the words ask for, of which the first names it. -/
def Command.ofWords? (json : Bool) : List String → Option Command
  | ["repl"] => if json then none else some .repl
  | ["run", file] => if json then none else some (.run file)
  | ["tokenize", file] => some (.tokenize file json)
  | ["parse", file] => some (.parse file json)
  | _ => none

/-- The invocation that the arguments ask for, and nothing if they make no sense.
Without a command the lines of the standard input are run. -/
def Invocation.ofArguments? (arguments : List String) : Option Invocation :=
  let marked := arguments.takeWhile (· != separator)
  let unmarked := (arguments.dropWhile (· != separator)).drop 1
  let common := marked.takeWhile isOption
  let own := marked.dropWhile isOption
  let options := own.filter isOption
  let words := own.filter (!isOption ·) ++ unmarked
  if areOptions [logOption] common && areOptions [logOption, jsonOption] options &&
      !words.contains "" then
    let log := common.contains logOption || options.contains logOption
    if own.isEmpty then
      if words.isEmpty then some ⟨.repl, log⟩ else none
    else
      (Command.ofWords? (options.contains jsonOption) words).map fun command => ⟨command, log⟩
  else none

end LoxLang.CommandLine
