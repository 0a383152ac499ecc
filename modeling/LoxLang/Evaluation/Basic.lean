/-
# Evaluation

The meaning of expressions, statements and programs as actions on a machine.

A program need not end, so evaluation is given fuel: every node evaluated, every
call and every round of a loop takes one unit from what the parts below it get.
More fuel never changes how an evaluation ends that had enough. The number of
calls in progress is bounded on its own, by a limit that is part of the language;
it is a parameter here so that evaluation with and without it can be compared.
-/

import LoxLang.Evaluation.Machine
import LoxLang.Evaluation.Operators

namespace LoxLang

/-- The most calls that may be in progress at once. -/
def maxCallDepth : Nat := 4096

/-- How a statement ends that has no fault. -/
inductive Flow
  | /-- Execution goes on after it. -/
    normal
  | /-- The call it belongs to ends with a value. -/
    returned (value : Value)

/-- The value of a call whose body ended so. -/
def Flow.result : Flow → Value
  | .normal => .nil
  | .returned value => value

/-- What can be called, if the value is that. -/
def Value.callable? : Value → Option Callable
  | .callable function => some function
  | _ => none

namespace Eval

variable (limit : Option Nat)

mutual

/-- The value of an expression. Operands and arguments are evaluated from left to
right, and a call checks what it calls before it evaluates its arguments. -/
def expression : Nat → Expr → Action Value
  | 0, _ => .outOfFuel
  | fuel + 1, node =>
    match node with
    | .literal value => pure (.ofLiteral value)
    | .grouping inner => expression fuel inner
    | .unary operator operand => do
      let operand ← expression fuel operand
      .ofExcept operator (operand.applyUnary operator.kind)
    | .binary left operator right => do
      let left ← expression fuel left
      let right ← expression fuel right
      .ofExcept operator (left.applyBinary operator.kind right)
    | .logical left operator right => do
      let left ← expression fuel left
      if left.decides operator.kind then pure left else expression fuel right
    | .variable name => .lookUp name
    | .assign name value => do
      let value ← expression fuel value
      Action.overwrite name value
      pure value
    | .call callee paren arguments => do
      let callee ← expression fuel callee
      match callee.callable? with
      | none => .raise paren .notCallable
      | some function => do
        let values ← each fuel arguments
        if values.length = function.arity then
          .inCall limit paren (call fuel function values)
        else .raise paren (.wrongArity function.arity values.length)

/-- The values of expressions, from left to right. -/
def each : Nat → List Expr → Action (List Value)
  | 0, _ => .outOfFuel
  | _ + 1, [] => pure []
  | fuel + 1, first :: others => do
    let value ← expression fuel first
    let values ← each fuel others
    pure (value :: values)

/-- The result of calling a function, whatever the number of arguments. Parameters
are bound to arguments in order; what is left of either is not used. -/
def call : Nat → Callable → List Value → Action Value
  | 0, _, _ => .outOfFuel
  | fuel + 1, function, values =>
    match function with
    | .native builtin _ => .runBuiltin builtin
    | .declared function => do
      let flow ← .inScope function.closure function.parameters values (body fuel function.body)
      pure flow.result

/-- Execute a statement. -/
def statement : Nat → Stmt → Action Flow
  | 0, _ => .outOfFuel
  | fuel + 1, node =>
    match node with
    | .expression value => do
      let _ ← expression fuel value
      pure .normal
    | .print value => do
      let value ← expression fuel value
      Action.print value
      pure .normal
    | .var name initial => do
      let value ←
        match initial with
        | some initial => expression fuel initial
        | none => pure .nil
      Action.declare name value
      pure .normal
    | .block statements => .inBlock (body fuel statements)
    | .branch condition consequent alternative => do
      let condition ← expression fuel condition
      if condition.isTruthy then statement fuel consequent
      else
        match alternative with
        | some alternative => statement fuel alternative
        | none => pure .normal
    | .loop condition repeated => do
      let holds ← expression fuel condition
      if holds.isTruthy then
        match ← statement fuel repeated with
        | .normal => statement fuel (.loop condition repeated)
        | .returned value => pure (.returned value)
      else pure .normal
    | .function name parameters statements => do
      let function ← Action.makeFunction name parameters statements
      Action.declare name function
      pure .normal
    | .ret _ value => do
      let value ←
        match value with
        | some value => expression fuel value
        | none => pure .nil
      pure (.returned value)

/-- Execute statements in order, up to the first that returns. -/
def body : Nat → List Stmt → Action Flow
  | 0, _ => .outOfFuel
  | _ + 1, [] => pure .normal
  | fuel + 1, first :: others => do
    match ← statement fuel first with
    | .normal => body fuel others
    | .returned value => pure (.returned value)

end

/-- Run a program: execute its statements up to the first error or top-level
return, and flush the output unless there was an error. -/
def program (fuel : Nat) (statements : Program) : Action Unit := do
  let _ ← body limit fuel statements
  Action.flush

end Eval

end LoxLang
