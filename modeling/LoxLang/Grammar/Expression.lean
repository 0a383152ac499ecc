/-
# The grammar of expressions

Binary operators bind in six tiers, from the loosest to the tightest, and within a
tier they associate to the left. Below the tiers come unary operators, then calls,
then constants, names and parentheses; above them stands assignment, which
associates to the right and accepts only a bare name on its left.

An assignment to anything else is noted and read on as if only its left side had
been written, and so are arguments in excess: neither leaves any doubt about where
the expression ends.
-/

import LoxLang.Grammar.Attempt
import LoxLang.Tree.Basic

namespace LoxLang

/-- Binary operators of one precedence. -/
structure Tier where
  /-- The kinds of token that are operators of the tier. -/
  operators : List TokenKind
  /-- The node that joins two operands. -/
  node : Expr → Token → Expr → Expr

/-- The tiers of binary operators, the loosest first. -/
def tiers : List Tier :=
  [⟨[.keyword .or], .logical⟩,
    ⟨[.keyword .and], .logical⟩,
    ⟨[.bangEqual, .equalEqual], .binary⟩,
    ⟨[.greater, .greaterEqual, .less, .lessEqual], .binary⟩,
    ⟨[.minus, .plus], .binary⟩,
    ⟨[.slash, .star], .binary⟩]

theorem length_tiers : tiers.length = 6 := rfl

/-- The kinds of token that are unary operators. -/
def unaryOperators : List TokenKind :=
  [.bang, .minus]

namespace Grammar

variable (eof : Token)

/-- The error noted at the next token if `count` entries were read already and no
more are allowed. -/
def excess (fault : SyntaxFault) (count : Nat) (tokens : List Token) : List SyntaxError :=
  if maxArity ≤ count then [⟨fault, nextOr eof tokens⟩] else []

/-- The node for an assignment that has been read in full. -/
def assigned {tokens : List Token} (target : Expr) (equals : Token) (value : Expr) :
    Attempt false Expr tokens :=
  match target with
  | .variable name => .done (.assign name value)
  | _ => (Attempt.done target).noting [⟨.invalidAssignmentTarget, equals⟩]

mutual

/-- An expression. -/
def expression (tokens : List Token) : Attempt true Expr tokens :=
  (chain tiers tokens).andThen fun target rest _ =>
    accept [.equal] rest
      (fun equals after _ =>
        (expression after).andThen fun value _ _ => assigned target equals value)
      (.done target)
termination_by 16 * tokens.length + 10
decreasing_by
  · rw [length_tiers]
    omega
  · omega

/-- Operands of the given tiers, joined by operators of the first of them. -/
def chain (levels : List Tier) (tokens : List Token) : Attempt true Expr tokens :=
  match levels with
  | [] => unary tokens
  | tier :: tighter =>
    (chain tighter tokens).andThen fun left rest _ => operands tier tighter left rest
termination_by 16 * tokens.length + levels.length + 3
decreasing_by all_goals
  simp only [List.length_cons, List.length_nil]
  omega

/-- The operators of a tier that follow `left`, each with its right operand. -/
def operands (tier : Tier) (tighter : List Tier) (left : Expr) (tokens : List Token) :
    Attempt false Expr tokens :=
  accept tier.operators tokens
    (fun operator after _ =>
      (chain tighter after).andThen fun right rest _ =>
        operands tier tighter (tier.node left operator right) rest)
    (.done left)
termination_by 16 * tokens.length + tighter.length + 3
decreasing_by all_goals omega

/-- An operand with the unary operators in front of it. -/
def unary (tokens : List Token) : Attempt true Expr tokens :=
  accept unaryOperators tokens
    (fun operator after _ => (unary after).map (.unary operator))
    (application tokens)
termination_by 16 * tokens.length + 2
decreasing_by all_goals omega

/-- An operand with the argument lists that follow it. -/
def application (tokens : List Token) : Attempt true Expr tokens :=
  (primary tokens).andThen fun callee rest _ => calls callee rest
termination_by 16 * tokens.length + 1
decreasing_by all_goals omega

/-- The argument lists that follow `callee`, each one a call of what stands before
it. -/
def calls (callee : Expr) (tokens : List Token) : Attempt false Expr tokens :=
  accept [.leftParen] tokens
    (fun _ after _ => (callOf callee after).andThen fun call rest _ => calls call rest)
    (.done callee)
termination_by 16 * tokens.length
decreasing_by all_goals omega

/-- The call of `callee` whose opening parenthesis has been read. -/
def callOf (callee : Expr) (tokens : List Token) : Attempt true Expr tokens :=
  accept [.rightParen] tokens
    (fun paren _ _ => .done (.call callee paren []))
    ((arguments 0 tokens).andThen fun arguments rest _ =>
      (expect eof .rightParen .noParenAfterArguments rest).map fun paren =>
        .call callee paren arguments)
termination_by 16 * tokens.length + 12
decreasing_by omega

/-- Arguments with commas between them, after `count` that were read before. -/
def arguments (count : Nat) (tokens : List Token) : Attempt true (List Expr) tokens :=
  ((expression tokens).andThen fun first rest _ =>
    accept [.comma] rest
      (fun _ after _ => (arguments (count + 1) after).map (first :: ·))
      (.done [first])).noting (excess eof .tooManyArguments count tokens)
termination_by 16 * tokens.length + 11
decreasing_by all_goals omega

/-- A constant, a name, or an expression in parentheses. -/
def primary (tokens : List Token) : Attempt true Expr tokens :=
  match tokens with
  | [] => .fail ⟨.noExpression, eof⟩ [] [] (Nat.le_refl _)
  | token :: after =>
    match token.kind with
    | .keyword .false => (Attempt.done (.literal (.bool false))).afterToken
    | .keyword .true => (Attempt.done (.literal (.bool true))).afterToken
    | .keyword .nil => (Attempt.done (.literal .nil)).afterToken
    | .number | .string =>
      match token.payload with
      | some payload => (Attempt.done (.literal payload.literal)).afterToken
      | none => .fail ⟨.malformedLiteral, token⟩ after [] (Nat.le_succ _)
    | .identifier => (Attempt.done (.variable token)).afterToken
    | .leftParen =>
      ((expression after).andThen fun inner rest _ =>
        (expect eof .rightParen .noParenAfterExpression rest).map fun _ =>
          .grouping inner).afterToken
    | _ => .fail ⟨.noExpression, token⟩ (token :: after) [] (Nat.le_refl _)
termination_by 16 * tokens.length
decreasing_by
  simp only [List.length_cons]
  omega

end

end Grammar

end LoxLang
