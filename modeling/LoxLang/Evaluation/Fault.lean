/-
# Faults of a running program

A program can fail in two ways. It can do something the language has no meaning
for, which is an error of the program at some line; or its output cannot be
written, which is no fault of the program.
-/

import LoxLang.Diagnostic
import LoxLang.Sink

namespace LoxLang

/-- What a program can do wrong. -/
inductive RuntimeFault
  | operandNotNumber
  | operandsNotNumbers
  | /-- An addition of what are neither two numbers nor two strings. -/
    operandsNotAddable
  | undefinedVariable (name : String)
  | notCallable
  | wrongArity (expected given : Nat)
  | stackOverflow
  | /-- A unary node whose token is no unary operator. -/
    invalidUnaryOperator
  | /-- A binary node whose token is no binary operator. -/
    invalidBinaryOperator
  deriving DecidableEq

/-- How a fault of a program is worded. -/
def RuntimeFault.message : RuntimeFault → String
  | .operandNotNumber => "Operand must be a number."
  | .operandsNotNumbers => "Operands must be numbers."
  | .operandsNotAddable => "Operands must be two numbers or two strings."
  | .undefinedVariable name => "Undefined variable '" ++ name ++ "'."
  | .notCallable => "Can only call functions and classes."
  | .wrongArity expected given =>
    "Expected " ++ toString expected ++ " arguments but got " ++ toString given ++ "."
  | .stackOverflow => "Stack overflow."
  | .invalidUnaryOperator => "Invalid unary operator."
  | .invalidBinaryOperator => "Invalid binary operator."

/-- A fault of a program and the line it arose on. -/
structure RuntimeError where
  /-- What went wrong. -/
  fault : RuntimeFault
  /-- The line of the token at fault. -/
  line : Nat
  deriving DecidableEq

/-- The error as it is reported. -/
def RuntimeError.diagnostic (error : RuntimeError) : Diagnostic :=
  .runtime error.fault.message error.line

/-- Why an evaluation ended without a result. -/
inductive Fault
  | /-- The program did something wrong. -/
    program (error : RuntimeError)
  | /-- The output could not be written. -/
    sink (fault : SinkFault)
  deriving DecidableEq

/-- The failure of a stream as it is reported. -/
def SinkFault.diagnostic (fault : SinkFault) : Diagnostic :=
  .stream fault.message

/-- The fault as it is reported. -/
def Fault.diagnostic : Fault → Diagnostic
  | .program error => error.diagnostic
  | .sink fault => fault.diagnostic

end LoxLang
