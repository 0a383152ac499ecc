/-
# Syntax trees

A program is a list of statements over expressions. Nodes keep the tokens that
later stages need: operators for their kind and line, names for their text, and
the closing parenthesis of a call for the line of an error raised by it.

There is no node for a counting loop. The grammar builds it from blocks and
loops.
-/

import LoxLang.Token.Basic

namespace LoxLang

/-- A constant written in the source. -/
inductive Literal
  | nil
  | bool (value : Bool)
  | number (value : Float)
  | string (contents : String)
  deriving DecidableEq

/-- The constant that a token's payload stands for. -/
def Payload.literal : Payload → Literal
  | .text contents => .string contents
  | .number value => .number value

/-- An expression. -/
inductive Expr
  | literal (value : Literal)
  | /-- An expression in parentheses. -/
    grouping (inner : Expr)
  | unary (operator : Token) (operand : Expr)
  | binary (left : Expr) (operator : Token) (right : Expr)
  | /-- A conjunction or disjunction, whose right side may stay unevaluated. -/
    logical (left : Expr) (operator : Token) (right : Expr)
  | variable (name : Token)
  | assign (name : Token) (value : Expr)
  | /-- A call, with the parenthesis that closes it. -/
    call (callee : Expr) (paren : Token) (arguments : List Expr)

/-- A statement. -/
inductive Stmt
  | expression (value : Expr)
  | print (value : Expr)
  | /-- A variable declaration; without an initial value the variable is nil. -/
    var (name : Token) (initial : Option Expr)
  | block (body : List Stmt)
  | branch (condition : Expr) (consequent : Stmt) (alternative : Option Stmt)
  | loop (condition : Expr) (body : Stmt)
  | function (name : Token) (parameters : List Token) (body : List Stmt)
  | ret (keyword : Token) (value : Option Expr)

/-- A program is a list of statements. -/
abbrev Program := List Stmt

end LoxLang
