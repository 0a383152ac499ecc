/-
# Values

What expressions evaluate to. There are no integers, every number is a double.
Functions carry an identity, given to them when they are made: two functions are
equal only if they are the same one, whatever their text.
-/

import LoxLang.Environment
import LoxLang.Number.Text
import LoxLang.Tree.Basic

namespace LoxLang

/-- What tells functions apart. -/
abbrev Identity := Nat

/-- A function that the language provides. -/
inductive Builtin
  | /-- The time of day, in seconds. -/
    clock
  deriving DecidableEq

namespace Builtin

/-- Every function that the language provides. -/
def all : List Builtin :=
  [.clock]

/-- The global name of the function. -/
def name : Builtin → String
  | .clock => "clock"

/-- How many arguments the function takes. -/
def arity : Builtin → Nat
  | .clock => 0

end Builtin

/-- A function made by a declaration. -/
structure Function where
  /-- Its name, as declared. -/
  name : Token
  /-- The names its arguments are bound to. -/
  parameters : List Token
  /-- What a call executes. -/
  body : List Stmt
  /-- The scope that encloses the scope of each call. -/
  closure : ScopeId
  /-- Which function this is. -/
  identity : Identity

/-- What can be called. -/
inductive Callable
  | declared (function : Function)
  | native (builtin : Builtin) (identity : Identity)

namespace Callable

/-- How many arguments a call must pass. -/
def arity : Callable → Nat
  | .declared function => function.parameters.length
  | .native builtin _ => builtin.arity

/-- Whether two callables are the same one. -/
def same : Callable → Callable → Bool
  | .declared f, .declared g => f.identity == g.identity
  | .native _ i, .native _ j => i == j
  | _, _ => false

end Callable

/-- A value. -/
inductive Value
  | nil
  | bool (value : Bool)
  | number (value : Float)
  | string (contents : String)
  | callable (function : Callable)

namespace Value

/-- The value of a constant. -/
def ofLiteral : Literal → Value
  | .nil => .nil
  | .bool value => .bool value
  | .number value => .number value
  | .string contents => .string contents

/-- Whether a condition with this value holds. Only nil and false do not. -/
def isTruthy : Value → Bool
  | .nil => false
  | .bool value => value
  | _ => true

/-- Equality as the language has it. Values of different kinds are unequal, and
numbers compare as doubles, so that one which is no number differs from itself. -/
def equals : Value → Value → Bool
  | .nil, .nil => true
  | .bool a, .bool b => a == b
  | .number a, .number b => a == b
  | .string a, .string b => a == b
  | .callable f, .callable g => f.same g
  | _, _ => false

/-- The name of the value's kind. -/
def kindName : Value → String
  | .nil => "nil"
  | .bool _ => "boolean"
  | .number _ => "number"
  | .string _ => "string"
  | .callable _ => "function"

/-- The text that printing a value writes. -/
def text : Value → String
  | .nil => "nil"
  | .bool value => if value then "true" else "false"
  | .number value => Number.ofValue value
  | .string contents => contents
  | .callable (.declared function) => "<fn " ++ function.name.lexeme ++ ">"
  | .callable (.native _ _) => "<native fn>"

end Value

end LoxLang
