/-
# Tokens and syntax trees as JSON

Every node is an object whose one member is named for the kind of node. Parts of a
node stand in an array, a single part stands by itself, and a part that is absent
is null.
-/

import LoxLang.Json
import LoxLang.Tree.Basic

namespace LoxLang

/-- A node of the given kind. -/
def Json.node (kind : String) (content : Json) : Json :=
  .object [(kind, content)]

/-- The document of what a token carries. -/
def Payload.json : Payload → Json
  | .text contents => .node "Str" (.string contents)
  | .number value => .node "Number" (.number value)

/-- The document of a token. -/
def Token.json (token : Token) : Json :=
  .object
    [("token_type", .string token.kind.name),
      ("lexeme", .string token.lexeme),
      ("literal", .ofOption Payload.json token.payload),
      ("line", .count token.line)]

/-- The document of a constant. -/
def Literal.json : Literal → Json
  | .nil => .string "Nil"
  | .bool value => .node "Bool" (.bool value)
  | .number value => .node "Number" (.number value)
  | .string contents => .node "Str" (.string contents)

mutual

/-- The document of an expression. -/
def Expr.json : Expr → Json
  | .literal value => .node "Literal" value.json
  | .grouping inner => .node "Grouping" inner.json
  | .unary operator operand => .node "Unary" (.array [operator.json, operand.json])
  | .binary left operator right =>
    .node "Binary" (.array [left.json, operator.json, right.json])
  | .logical left operator right =>
    .node "Logical" (.array [left.json, operator.json, right.json])
  | .variable name => .node "Variable" name.json
  | .assign name value => .node "Assign" (.array [name.json, value.json])
  | .call callee paren arguments =>
    .node "Call" (.array [callee.json, paren.json, .array (Expr.jsonEach arguments)])

/-- The documents of expressions. -/
def Expr.jsonEach : List Expr → List Json
  | [] => []
  | first :: others => first.json :: Expr.jsonEach others

end

mutual

/-- The document of a statement. -/
def Stmt.json : Stmt → Json
  | .expression value => .node "Expression" value.json
  | .print value => .node "Print" value.json
  | .var name initial => .node "Var" (.array [name.json, .ofOption Expr.json initial])
  | .block body => .node "Block" (.array (Stmt.jsonEach body))
  | .branch condition consequent none =>
    .node "If" (.array [condition.json, consequent.json, .null])
  | .branch condition consequent (some alternative) =>
    .node "If" (.array [condition.json, consequent.json, alternative.json])
  | .loop condition body => .node "While" (.array [condition.json, body.json])
  | .function name parameters body =>
    .node "Function"
      (.object
        [("name", name.json),
          ("params", .array (parameters.map Token.json)),
          ("body", .array (Stmt.jsonEach body))])
  | .ret keyword value => .node "Return" (.array [keyword.json, .ofOption Expr.json value])

/-- The documents of statements. -/
def Stmt.jsonEach : List Stmt → List Json
  | [] => []
  | first :: others => first.json :: Stmt.jsonEach others

end

/-- The document of a list of tokens. -/
def Token.document (tokens : List Token) : Json :=
  .array (tokens.map Token.json)

/-- The document of a program. -/
def Program.document (program : Program) : Json :=
  .array (Stmt.jsonEach program)

end LoxLang
