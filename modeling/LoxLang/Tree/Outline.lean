/-
# Outlines of syntax trees

An outline writes a tree on one line, every node in parentheses and its operator
first. It leaves out line numbers and the parentheses that close calls, and shows
strings without their quotes.
-/

import LoxLang.Number.Text
import LoxLang.Tree.Basic

namespace LoxLang

/-- The text of a constant. -/
def Literal.outline : Literal → String
  | .nil => "nil"
  | .bool value => if value then "true" else "false"
  | .number value => Number.display value
  | .string contents => contents

mutual

/-- The outline of an expression. -/
def Expr.outline : Expr → String
  | .literal value => value.outline
  | .grouping inner => "(group " ++ inner.outline ++ ")"
  | .unary operator operand => "(" ++ operator.lexeme ++ " " ++ operand.outline ++ ")"
  | .binary left operator right | .logical left operator right =>
    "(" ++ operator.lexeme ++ " " ++ left.outline ++ " " ++ right.outline ++ ")"
  | .variable name => name.lexeme
  | .assign name value => "(= " ++ name.lexeme ++ " " ++ value.outline ++ ")"
  | .call callee _ arguments =>
    "(call " ++ callee.outline ++ Expr.outlineEach arguments ++ ")"

/-- The outlines of expressions, each after a blank. -/
def Expr.outlineEach : List Expr → String
  | [] => ""
  | first :: others => " " ++ first.outline ++ Expr.outlineEach others

end

mutual

/-- The outline of a statement. -/
def Stmt.outline : Stmt → String
  | .expression value => "(; " ++ value.outline ++ ")"
  | .print value => "(print " ++ value.outline ++ ")"
  | .var name none => "(var " ++ name.lexeme ++ ")"
  | .var name (some initial) => "(var " ++ name.lexeme ++ " " ++ initial.outline ++ ")"
  | .block body => "(block" ++ Stmt.outlineEach body ++ ")"
  | .branch condition consequent none =>
    "(if " ++ condition.outline ++ " " ++ consequent.outline ++ ")"
  | .branch condition consequent (some alternative) =>
    "(if " ++ condition.outline ++ " " ++ consequent.outline ++ " " ++ alternative.outline ++ ")"
  | .loop condition body => "(while " ++ condition.outline ++ " " ++ body.outline ++ ")"
  | .function name parameters body =>
    "(fun " ++ name.lexeme ++ " (" ++ " ".intercalate (parameters.map Token.lexeme) ++ ")" ++
      Stmt.outlineEach body ++ ")"
  | .ret _ none => "(return)"
  | .ret _ (some value) => "(return " ++ value.outline ++ ")"

/-- The outlines of statements, each after a blank. -/
def Stmt.outlineEach : List Stmt → String
  | [] => ""
  | first :: others => " " ++ first.outline ++ Stmt.outlineEach others

end

end LoxLang
