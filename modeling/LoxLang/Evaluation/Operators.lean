/-
# Operators

What the operators make of values that have been computed. The kind of the
operator's token decides, its text is not looked at.
-/

import LoxLang.Evaluation.Fault
import LoxLang.Value

namespace LoxLang.Value

/-- The result of a unary operator. -/
def applyUnary (operator : TokenKind) (operand : Value) : Except RuntimeFault Value :=
  match operator with
  | .minus =>
    match operand with
    | .number value => .ok (.number (-value))
    | _ => .error .operandNotNumber
  | .bang => .ok (.bool (!operand.isTruthy))
  | _ => .error .invalidUnaryOperator

/-- The result of an operator on numbers. -/
@[inline]
def onNumbers (result : Float → Float → Value) : Value → Value → Except RuntimeFault Value
  | .number left, .number right => .ok (result left right)
  | _, _ => .error .operandsNotNumbers

/-- The result of adding, which also joins strings. -/
def add : Value → Value → Except RuntimeFault Value
  | .number left, .number right => .ok (.number (left + right))
  | .string left, .string right => .ok (.string (left ++ right))
  | _, _ => .error .operandsNotAddable

/-- The result of a binary operator. Division follows the rules for doubles, so
that dividing by zero gives an infinity or no number. -/
def applyBinary (operator : TokenKind) (left right : Value) : Except RuntimeFault Value :=
  match operator with
  | .plus => add left right
  | .minus => onNumbers (fun a b => .number (a - b)) left right
  | .slash => onNumbers (fun a b => .number (a / b)) left right
  | .star => onNumbers (fun a b => .number (a * b)) left right
  | .greater => onNumbers (fun a b => .bool (decide (b < a))) left right
  | .greaterEqual => onNumbers (fun a b => .bool (decide (b ≤ a))) left right
  | .less => onNumbers (fun a b => .bool (decide (a < b))) left right
  | .lessEqual => onNumbers (fun a b => .bool (decide (a ≤ b))) left right
  | .equalEqual => .ok (.bool (left.equals right))
  | .bangEqual => .ok (.bool (!left.equals right))
  | _ => .error .invalidBinaryOperator

/-- Whether the left side of a logical operator decides its result. Whatever is no
disjunction is read as a conjunction. -/
def decides (operator : TokenKind) (left : Value) : Bool :=
  if operator = .keyword .or then left.isTruthy else !left.isTruthy

end LoxLang.Value
