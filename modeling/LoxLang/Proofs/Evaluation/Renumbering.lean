/-
# Renumbered machines

A machine stores functions, and these are made of trees. If these are renumbered, nothing
is seen of it by what looks at values: how they print, whether they hold, which of them
are equal, what operators make of them.
-/

import LoxLang.Evaluation.Basic
import LoxLang.Proofs.Environment.Mapping
import LoxLang.Proofs.Tree.Renumbering

namespace LoxLang

variable (line later : Nat → Nat)

/-! ## Values -/

/-- The function with its tree renumbered. -/
def Function.renumber (function : Function) : Function :=
  { function with
    name := function.name.renumber line
    parameters := function.parameters.map (Token.renumber line)
    body := Stmt.renumberEach line function.body }

/-- The function with its tree, if it has one, renumbered. -/
def Callable.renumber : Callable → Callable
  | .declared function => .declared (function.renumber line)
  | .native builtin identity => .native builtin identity

theorem Callable.renumber_id (function : Callable) : function.renumber id = function := by
  cases function with
  | declared function =>
      rw [renumber, Function.renumber, Token.renumber_id, Token.map_renumber_id,
        Stmt.renumberEach_id]
  | native builtin identity => rfl

theorem Callable.renumber_renumber (function : Callable) :
    (function.renumber line).renumber later = function.renumber (later ∘ line) := by
  cases function with
  | declared function =>
      simp only [renumber, Function.renumber, Token.renumber_renumber,
        Token.map_renumber_renumber, Stmt.renumberEach_renumberEach]
  | native builtin identity => rfl

theorem Callable.arity_renumber (function : Callable) :
    (function.renumber line).arity = function.arity := by
  cases function with
  | declared function => exact List.length_map _
  | native builtin identity => rfl

namespace Value

/-- The value, which may be a function, renumbered. -/
def renumber : Value → Value
  | .callable function => .callable (function.renumber line)
  | value => value

@[simp]
theorem renumber_id : renumber id = id := by
  funext value
  cases value with
  | callable function => rw [renumber, Callable.renumber_id, id]
  | _ => rfl

@[simp]
theorem renumber_comp : renumber later ∘ renumber line = renumber (later ∘ line) := by
  funext value
  cases value with
  | callable function => exact congrArg callable (function.renumber_renumber line later)
  | _ => rfl

variable (value other : Value)

theorem callable?_renumber :
    (value.renumber line).callable? = value.callable?.map (Callable.renumber line) := by
  cases value <;> rfl

theorem renumber_of_callable? {value : Value} (h : value.callable? = none) :
    value.renumber line = value := by
  cases value with
  | callable function => cases h
  | _ => rfl

@[simp]
theorem text_renumber : (value.renumber line).text = value.text := by
  cases value with
  | callable function => cases function <;> rfl
  | _ => rfl

@[simp]
theorem isTruthy_renumber : (value.renumber line).isTruthy = value.isTruthy := by
  cases value <;> rfl

@[simp]
theorem decides_renumber (operator : TokenKind) :
    (value.renumber line).decides operator = value.decides operator := by
  rw [decides, decides, isTruthy_renumber]

@[simp]
theorem equals_renumber :
    (value.renumber line).equals (other.renumber line) = value.equals other := by
  cases value with
  | callable function =>
      cases other with
      | callable other => cases function <;> cases other <;> rfl
      | _ => rfl
  | _ => cases other <;> rfl

theorem applyUnary_renumber (operator : TokenKind) :
    (value.renumber line).applyUnary operator =
      (value.applyUnary operator).map (renumber line) := by
  rw [applyUnary.eq_def, isTruthy_renumber, applyUnary.eq_def]
  split
  · cases value <;> rfl
  · rfl
  · rfl

theorem onNumbers_renumber {make : Float → Float → Value}
    (hmake : ∀ a b, (make a b).callable? = none) :
    onNumbers make (value.renumber line) (other.renumber line) =
      (onNumbers make value other).map (renumber line) := by
  cases value <;> cases other <;> try rfl
  exact congrArg Except.ok (renumber_of_callable? line (hmake _ _)).symm

theorem add_renumber :
    (value.renumber line).add (other.renumber line) = (value.add other).map (renumber line) := by
  cases value <;> cases other <;> rfl

theorem applyBinary_renumber (operator : TokenKind) :
    (value.renumber line).applyBinary operator (other.renumber line) =
      (value.applyBinary operator other).map (renumber line) := by
  unfold applyBinary
  split
  · exact add_renumber line value other
  iterate 7 exact onNumbers_renumber line value other fun _ _ => rfl
  · rw [equals_renumber]
    rfl
  · rw [equals_renumber]
    rfl
  · rfl

end Value

/-- The way a statement ends, with the value renumbered if it returns one. -/
def Flow.renumber : Flow → Flow
  | .normal => .normal
  | .returned value => .returned (value.renumber line)

@[simp]
theorem Flow.renumber_id : renumber id = id := by
  funext flow
  cases flow with
  | returned value => rw [renumber, Value.renumber_id, id, id]
  | normal => rfl

theorem Flow.result_renumber (flow : Flow) :
    (flow.renumber line).result = flow.result.renumber line := by
  cases flow <;> rfl

/-! ## Faults and ends -/

/-- The error located on another line. -/
def RuntimeError.renumber (error : RuntimeError) : RuntimeError :=
  { error with line := line error.line }

/-- The fault, located on another line if it is one of the program. -/
def Fault.renumber : Fault → Fault
  | .program error => .program (error.renumber line)
  | .sink fault => .sink fault

@[simp]
theorem Fault.renumber_id (fault : Fault) : fault.renumber id = fault := by
  cases fault <;> rfl

/-- The same end with the result and the fault replaced. -/
def Exit.map {ε δ α β : Type} (cause : ε → δ) (result : α → β) : Exit ε α → Exit δ β
  | .value found => .value (result found)
  | .fault held => .fault (cause held)
  | .outOfFuel => .outOfFuel

theorem Exit.map_renumber_id {α : Type} (exit : Exit Fault α) :
    exit.map (Fault.renumber id) id = exit := by
  cases exit with
  | fault cause => rw [map, Fault.renumber_id]
  | _ => rfl

/-! ## Machines -/

namespace Machine

variable (machine : Machine)

/-- The machine with all functions that it stores renumbered. -/
def renumber : Machine :=
  { machine with environment := machine.environment.map (Value.renumber line) }

@[simp]
theorem renumber_id : machine.renumber id = machine := by
  rw [renumber, Value.renumber_id, Environment.map_id]

@[simp]
theorem renumber_renumber :
    (machine.renumber line).renumber later = machine.renumber (later ∘ line) := by
  rw [renumber, renumber, renumber, Environment.map_map, Value.renumber_comp]

end Machine

end LoxLang
