/-
# Renumbered trees

The line of a token says where it was read. Where a source stands in a longer one, its
tokens are on other lines and are the same in all else, and so are the trees that are
made of them.
-/

import LoxLang.Tree.Basic

namespace LoxLang

/-! ## Tokens -/

namespace Token

variable (line : Nat → Nat) (token : Token)

/-- The token on another line, which the line it is on decides. -/
def renumber (line : Nat → Nat) (token : Token) : Token :=
  { token with line := line token.line }

@[simp]
theorem kind_renumber : (token.renumber line).kind = token.kind :=
  rfl

@[simp]
theorem lexeme_renumber : (token.renumber line).lexeme = token.lexeme :=
  rfl

@[simp]
theorem payload_renumber : (token.renumber line).payload = token.payload :=
  rfl

@[simp]
theorem line_renumber : (token.renumber line).line = line token.line :=
  rfl

@[simp]
theorem renumber_id : token.renumber id = token :=
  rfl

@[simp]
theorem renumber_renumber (later : Nat → Nat) :
    (token.renumber line).renumber later = token.renumber (later ∘ line) :=
  rfl

@[simp]
theorem map_renumber_id (tokens : List Token) : tokens.map (renumber id) = tokens :=
  List.map_id tokens

@[simp]
theorem map_renumber_renumber (later : Nat → Nat) (tokens : List Token) :
    (tokens.map (renumber line)).map (renumber later) = tokens.map (renumber (later ∘ line)) := by
  rw [List.map_map]
  rfl

end Token

/-! ## Trees -/

mutual

/-- The expression with all its tokens renumbered. -/
def Expr.renumber (line : Nat → Nat) : Expr → Expr
  | .literal value => .literal value
  | .grouping inner => .grouping (inner.renumber line)
  | .unary operator operand => .unary (operator.renumber line) (operand.renumber line)
  | .binary left operator right =>
    .binary (left.renumber line) (operator.renumber line) (right.renumber line)
  | .logical left operator right =>
    .logical (left.renumber line) (operator.renumber line) (right.renumber line)
  | .variable name => .variable (name.renumber line)
  | .assign name value => .assign (name.renumber line) (value.renumber line)
  | .call callee paren arguments =>
    .call (callee.renumber line) (paren.renumber line) (Expr.renumberEach line arguments)

/-- The expressions with all their tokens renumbered. -/
def Expr.renumberEach (line : Nat → Nat) : List Expr → List Expr
  | [] => []
  | first :: others => first.renumber line :: Expr.renumberEach line others

end

mutual

/-- The statement with all its tokens renumbered. -/
def Stmt.renumber (line : Nat → Nat) : Stmt → Stmt
  | .expression value => .expression (value.renumber line)
  | .print value => .print (value.renumber line)
  | .var name initial => .var (name.renumber line) (initial.map (Expr.renumber line))
  | .block body => .block (Stmt.renumberEach line body)
  | .branch condition consequent none =>
    .branch (condition.renumber line) (consequent.renumber line) none
  | .branch condition consequent (some alternative) =>
    .branch (condition.renumber line) (consequent.renumber line) (some (alternative.renumber line))
  | .loop condition body => .loop (condition.renumber line) (body.renumber line)
  | .function name parameters body =>
    .function (name.renumber line) (parameters.map (Token.renumber line))
      (Stmt.renumberEach line body)
  | .ret keyword value => .ret (keyword.renumber line) (value.map (Expr.renumber line))

/-- The statements with all their tokens renumbered. -/
def Stmt.renumberEach (line : Nat → Nat) : List Stmt → List Stmt
  | [] => []
  | first :: others => first.renumber line :: Stmt.renumberEach line others

end

namespace Expr

variable (line later : Nat → Nat)

theorem renumberEach_eq_map (nodes : List Expr) :
    renumberEach line nodes = nodes.map (renumber line) := by
  induction nodes with
  | nil => rfl
  | cons first others ih => rw [renumberEach, ih, List.map_cons]

mutual

@[simp]
theorem renumber_id : ∀ node : Expr, node.renumber id = node
  | .literal _ | .variable _ => rfl
  | .grouping inner => by rw [renumber, renumber_id inner]
  | .unary _ operand => by rw [renumber, renumber_id operand, Token.renumber_id]
  | .binary left _ right | .logical left _ right => by
      rw [renumber, renumber_id left, renumber_id right, Token.renumber_id]
  | .assign _ value => by rw [renumber, renumber_id value, Token.renumber_id]
  | .call callee _ arguments => by
      rw [renumber, renumber_id callee, renumberEach_id arguments, Token.renumber_id]

@[simp]
theorem renumberEach_id : ∀ nodes : List Expr, renumberEach id nodes = nodes
  | [] => rfl
  | first :: others => by rw [renumberEach, renumber_id first, renumberEach_id others]

end

mutual

@[simp]
theorem renumber_renumber : ∀ node : Expr,
    (node.renumber line).renumber later = node.renumber (later ∘ line)
  | .literal _ | .variable _ => rfl
  | .grouping inner => by simp only [renumber, renumber_renumber inner]
  | .unary _ operand => by
      simp only [renumber, renumber_renumber operand, Token.renumber_renumber]
  | .binary left _ right | .logical left _ right => by
      simp only [renumber, renumber_renumber left, renumber_renumber right,
        Token.renumber_renumber]
  | .assign _ value => by simp only [renumber, renumber_renumber value, Token.renumber_renumber]
  | .call callee _ arguments => by
      simp only [renumber, renumber_renumber callee, renumberEach_renumberEach arguments,
        Token.renumber_renumber]

@[simp]
theorem renumberEach_renumberEach : ∀ nodes : List Expr,
    renumberEach later (renumberEach line nodes) = renumberEach (later ∘ line) nodes
  | [] => rfl
  | first :: others => by
      simp only [renumberEach, renumber_renumber first, renumberEach_renumberEach others]

end

end Expr

namespace Stmt

variable (line later : Nat → Nat)

theorem map_renumber_id (node : Option Expr) : node.map (Expr.renumber id) = node := by
  cases node with
  | none => rfl
  | some node => rw [Option.map_some, Expr.renumber_id]

theorem map_renumber_renumber (node : Option Expr) :
    (node.map (Expr.renumber line)).map (Expr.renumber later) =
      node.map (Expr.renumber (later ∘ line)) := by
  cases node with
  | none => rfl
  | some node => simp only [Option.map_some, Expr.renumber_renumber]

mutual

@[simp]
theorem renumber_id : ∀ node : Stmt, node.renumber id = node
  | .expression _ | .print _ => by rw [renumber, Expr.renumber_id]
  | .var _ _ | .ret _ _ => by rw [renumber, map_renumber_id, Token.renumber_id]
  | .block body => by rw [renumber, renumberEach_id body]
  | .branch _ consequent none => by rw [renumber, renumber_id consequent, Expr.renumber_id]
  | .branch _ consequent (some alternative) => by
      rw [renumber, renumber_id consequent, renumber_id alternative, Expr.renumber_id]
  | .loop _ body => by rw [renumber, renumber_id body, Expr.renumber_id]
  | .function _ _ body => by
      rw [renumber, renumberEach_id body, Token.renumber_id, Token.map_renumber_id]

@[simp]
theorem renumberEach_id : ∀ nodes : List Stmt, renumberEach id nodes = nodes
  | [] => rfl
  | first :: others => by rw [renumberEach, renumber_id first, renumberEach_id others]

end

mutual

@[simp]
theorem renumber_renumber : ∀ node : Stmt,
    (node.renumber line).renumber later = node.renumber (later ∘ line)
  | .expression _ | .print _ => by simp only [renumber, Expr.renumber_renumber]
  | .var _ _ | .ret _ _ => by
      simp only [renumber, map_renumber_renumber, Token.renumber_renumber]
  | .block body => by simp only [renumber, renumberEach_renumberEach body]
  | .branch _ consequent none => by
      simp only [renumber, renumber_renumber consequent, Expr.renumber_renumber]
  | .branch _ consequent (some alternative) => by
      simp only [renumber, renumber_renumber consequent, renumber_renumber alternative,
        Expr.renumber_renumber]
  | .loop _ body => by simp only [renumber, renumber_renumber body, Expr.renumber_renumber]
  | .function _ _ body => by
      simp only [renumber, renumberEach_renumberEach body, Token.renumber_renumber,
        Token.map_renumber_renumber]

@[simp]
theorem renumberEach_renumberEach : ∀ nodes : List Stmt,
    renumberEach later (renumberEach line nodes) = renumberEach (later ∘ line) nodes
  | [] => rfl
  | first :: others => by
      simp only [renumberEach, renumber_renumber first, renumberEach_renumberEach others]

end

end Stmt

end LoxLang
