/-
# Machines and actions

A machine is all that a running program can see and change. An action runs on a
machine and ends with a result, with a fault, or because it may not go on for
longer; whichever it is, it leaves a machine behind.
-/

import LoxLang.Clock
import LoxLang.Evaluation.Fault
import LoxLang.Value

namespace LoxLang

/-- The state of a running program. -/
structure Machine where
  /-- The live scopes. -/
  environment : Environment Value
  /-- The scope that names are searched from and declared in. -/
  current : ScopeId
  /-- How many calls are in progress. -/
  callDepth : Nat
  /-- The identity of the next function made. -/
  supply : Identity
  /-- Where the time of day is read. -/
  clock : Clock
  /-- Where printing goes. -/
  output : Sink

/-- How an action ends. -/
inductive Exit (ε α : Type)
  | /-- With a result. -/
    value (result : α)
  | /-- With a fault. -/
    fault (cause : ε)
  | /-- Unfinished, because its fuel is used up. -/
    outOfFuel

/-- The end of what has no result but may have failed. -/
def Exit.ofFault? {ε : Type} : Option ε → Exit ε Unit
  | none => .value ()
  | some cause => .fault cause

/-- What can be done with a machine. -/
def Action (α : Type) : Type :=
  Machine → Exit Fault α × Machine

namespace Action

variable {α β : Type}

/-- Leave the machine alone. -/
@[always_inline, inline]
def pure (result : α) : Action α :=
  fun machine => (.value result, machine)

/-- Do one thing and then, if it had a result, another. -/
@[always_inline, inline]
def bind (first : Action α) (next : α → Action β) : Action β :=
  fun machine =>
    match first machine with
    | (.value result, machine) => next result machine
    | (.fault cause, machine) => (.fault cause, machine)
    | (.outOfFuel, machine) => (.outOfFuel, machine)

instance : Monad Action where
  pure := Action.pure
  bind := Action.bind

/-- Go no further. -/
@[inline]
def outOfFuel : Action α :=
  fun machine => (.outOfFuel, machine)

/-- End with an error of the program at the given token. -/
def raise (token : Token) (fault : RuntimeFault) : Action α :=
  fun machine => (.fault (.program ⟨fault, token.line⟩), machine)

/-- Use a result, or raise the error there is instead of one. -/
@[inline]
def ofExcept (token : Token) : Except RuntimeFault α → Action α
  | .ok result => Action.pure result
  | .error fault => raise token fault

/-- The value of the variable that a token names. -/
def lookUp (name : Token) : Action Value :=
  fun machine =>
    match machine.environment.search machine.current name.lexeme with
    | .found _ value => (.value value, machine)
    | .unbound => raise name (.undefinedVariable name.lexeme) machine
    | .endless => (.outOfFuel, machine)

/-- Give a new value to the nearest variable that a token names. -/
def overwrite (name : Token) (value : Value) : Action Unit :=
  fun machine =>
    match machine.environment.search machine.current name.lexeme with
    | .found scope _ =>
      (.value (),
        { machine with environment := machine.environment.define scope name.lexeme value })
    | .unbound => raise name (.undefinedVariable name.lexeme) machine
    | .endless => (.outOfFuel, machine)

/-- Bind a name in the current scope. -/
def declare (name : Token) (value : Value) : Action Unit :=
  fun machine =>
    (.value (),
      { machine with environment := machine.environment.define machine.current name.lexeme value })

/-- Make a function. Calls of it see the global scope and nothing else of where
the declaration stands. -/
def makeFunction (name : Token) (parameters : List Token) (body : List Stmt) : Action Value :=
  fun machine =>
    (.value (.callable (.declared ⟨name, parameters, body, .global, machine.supply⟩)),
      { machine with supply := machine.supply + 1 })

/-- Have the output do something, and fail if that fails. -/
def request (work : Sink → Option SinkFault × Sink) : Action Unit :=
  fun machine =>
    match work machine.output with
    | (none, output) => (.value (), { machine with output := output })
    | (some fault, output) => (.fault (.sink fault), { machine with output := output })

/-- Print a value on a line of its own. -/
def print (value : Value) : Action Unit :=
  request (·.writeLine value.text)

/-- Flush the output. -/
def flush : Action Unit :=
  request Sink.flush

/-- Run a function of the language. -/
def runBuiltin : Builtin → Action Value
  | .clock => fun machine =>
    (.value (.number machine.clock.seconds), { machine with clock := machine.clock.read })

/-- Run an action in a new scope inside the given one, with the names bound to the
values as far as both go. The scope is released and the current one restored
however the action ends. -/
@[inline]
def inScope (enclosing : ScopeId) (names : List Token) (values : List Value)
    (action : Action α) : Action α :=
  fun machine =>
    let outer := machine.current
    let scope := machine.environment.next
    match action
      { machine with
        environment := (machine.environment.push enclosing).defineAll scope
          (names.map Token.lexeme) values
        current := scope } with
    | (exit, machine) =>
      (exit, { machine with environment := machine.environment.pop scope, current := outer })

/-- Run an action in a new, empty scope inside the current one. -/
@[inline]
def inBlock (action : Action α) : Action α :=
  fun machine => inScope machine.current [] [] action machine

/-- Run an action as a call, unless as many calls as the limit allows are in
progress. The parenthesis that closes the call is where the error is located. -/
@[inline]
def inCall (limit : Option Nat) (paren : Token) (action : Action α) : Action α :=
  fun machine =>
    if limit.any (· ≤ machine.callDepth) then raise paren .stackOverflow machine
    else
      match action { machine with callDepth := machine.callDepth + 1 } with
      | (exit, machine) => (exit, { machine with callDepth := machine.callDepth - 1 })

end Action

namespace Machine

/-- The environment that programs start with: the functions of the language under
their global names, numbered from the given identity. -/
def globals (identity : Identity) (builtins : List Builtin) (environment : Environment Value) :
    Environment Value :=
  match builtins with
  | [] => environment
  | builtin :: rest =>
    globals (identity + 1) rest
      (environment.define .global builtin.name (.callable (.native builtin identity)))

/-- A machine that has run nothing yet. -/
def start (clock : Clock) (output : Sink) : Machine where
  environment := globals 0 Builtin.all .empty
  current := .global
  callDepth := 0
  supply := Builtin.all.length
  clock := clock
  output := output

end Machine

end LoxLang
