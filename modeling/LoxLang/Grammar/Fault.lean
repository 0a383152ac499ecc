/-
# Syntax faults

What the grammar can object to. Most faults are fatal: the statement they occur in
is given up. Four are not, because the tokens around them are understood; they are
noted, and reading goes on where it was.
-/

import LoxLang.Diagnostic

namespace LoxLang

/-- The most parameters a function may have, and the most arguments a call may
pass. -/
def maxArity : Nat := 255

/-- What can be wrong with a sequence of tokens. -/
inductive SyntaxFault
  | noFunctionName
  | noParenAfterFunctionName
  | noParameterName
  | noParenAfterParameters
  | noBraceBeforeBody
  | noVariableName
  | noSemicolonAfterVariable
  | noParenAfterFor
  | noSemicolonAfterLoopCondition
  | noParenAfterForClauses
  | noParenAfterIf
  | noParenAfterIfCondition
  | noParenAfterWhile
  | noParenAfterCondition
  | noSemicolonAfterValue
  | noSemicolonAfterReturnValue
  | noSemicolonAfterExpression
  | noBraceAfterBlock
  | noParenAfterArguments
  | noParenAfterExpression
  | noExpression
  | /-- A complete expression is followed by more tokens. -/
    noEndOfExpression
  | /-- A number or string token carries nothing. -/
    malformedLiteral
  | tooManyParameters
  | tooManyArguments
  | returnOutsideFunction
  | invalidAssignmentTarget
  deriving DecidableEq

namespace SyntaxFault

/-- How a syntax fault is worded. -/
def message : SyntaxFault → String
  | .noFunctionName => "Expect function name."
  | .noParenAfterFunctionName => "Expect '(' after function name."
  | .noParameterName => "Expect parameter name."
  | .noParenAfterParameters => "Expect ')' after parameters."
  | .noBraceBeforeBody => "Expect '\x7b' before function body."
  | .noVariableName => "Expect variable name."
  | .noSemicolonAfterVariable => "Expect ';' after variable declaration."
  | .noParenAfterFor => "Expect '(' after 'for'."
  | .noSemicolonAfterLoopCondition => "Expect ';' after loop condition."
  | .noParenAfterForClauses => "Expect ')' after for clauses."
  | .noParenAfterIf => "Expect '(' after 'if'."
  | .noParenAfterIfCondition => "Expect ')' after if condition."
  | .noParenAfterWhile => "Expect '(' after 'while'."
  | .noParenAfterCondition => "Expect ')' after condition."
  | .noSemicolonAfterValue => "Expect ';' after value."
  | .noSemicolonAfterReturnValue => "Expect ';' after return value."
  | .noSemicolonAfterExpression => "Expect ';' after expression."
  | .noBraceAfterBlock => "Expect '\x7d' after block."
  | .noParenAfterArguments => "Expect ')' after arguments."
  | .noParenAfterExpression => "Expect ')' after expression."
  | .noExpression => "Expect expression."
  | .noEndOfExpression => "Expect end of expression."
  | .malformedLiteral => "Malformed literal."
  | .tooManyParameters => "Can't have more than 255 parameters."
  | .tooManyArguments => "Can't have more than 255 arguments."
  | .returnOutsideFunction => "Can't return from top-level code."
  | .invalidAssignmentTarget => "Invalid assignment target."

/-- Whether the fault ends the statement it occurs in. -/
def isFatal : SyntaxFault → Bool
  | .tooManyParameters => false
  | .tooManyArguments => false
  | .returnOutsideFunction => false
  | .invalidAssignmentTarget => false
  | _ => true

end SyntaxFault

/-- A syntax fault and the token it is found at. -/
structure SyntaxError where
  /-- What is wrong. -/
  fault : SyntaxFault
  /-- The token at fault, which may be the end of the source. -/
  token : Token
  deriving DecidableEq

/-- The error as it is reported. -/
def SyntaxError.diagnostic (error : SyntaxError) : Diagnostic :=
  .atToken error.token error.fault.message

end LoxLang
