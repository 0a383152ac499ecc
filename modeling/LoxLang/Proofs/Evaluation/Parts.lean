/-
# The parts of an evaluation

An evaluation evaluates parts of its node, calls functions and goes through loops. Each
of these is an evaluation of its own, on the machine that was reached by then. This
module says which ones a given evaluation starts, and by that what happens during it:
results alone do not tell, as a fault leaves little of what went before. Each starts with
a live current scope, if the whole does.
-/

import LoxLang.Proofs.Evaluation.Restoration

namespace LoxLang

namespace Eval

/-- What can be evaluated, each by a function of its own. -/
inductive Task
  | expression (node : Expr)
  | each (nodes : List Expr)
  | call (function : Callable) (values : List Value)
  | statement (node : Stmt)
  | body (nodes : List Stmt)

variable (limit : Option Nat) (fuel : Nat)

/-- The task, given one more than the fuel, starts the part with just the fuel. The
machines are those that either starts on. -/
inductive Starts : Task → Machine → Task → Machine → Prop
  | grouping {machine : Machine} {inner : Expr} :
      Starts (.expression (.grouping inner)) machine (.expression inner) machine
  | operand {machine : Machine} {operator : Token} {operand : Expr} :
      Starts (.expression (.unary operator operand)) machine (.expression operand) machine
  | left {machine : Machine} {left right : Expr} {operator : Token} :
      Starts (.expression (.binary left operator right)) machine (.expression left) machine
  | right {machine after : Machine} {left right : Expr} {operator : Token} {value : Value} :
      expression limit fuel left machine = (.value value, after) →
      Starts (.expression (.binary left operator right)) machine (.expression right) after
  | deciding {machine : Machine} {left right : Expr} {operator : Token} :
      Starts (.expression (.logical left operator right)) machine (.expression left) machine
  | undecided {machine after : Machine} {left right : Expr} {operator : Token} {value : Value} :
      expression limit fuel left machine = (.value value, after) →
      value.decides operator.kind = false →
      Starts (.expression (.logical left operator right)) machine (.expression right) after
  | assigned {machine : Machine} {name : Token} {value : Expr} :
      Starts (.expression (.assign name value)) machine (.expression value) machine
  | callee {machine : Machine} {callee : Expr} {paren : Token} {arguments : List Expr} :
      Starts (.expression (.call callee paren arguments)) machine (.expression callee) machine
  | arguments {machine after : Machine} {callee : Expr} {paren : Token} {arguments : List Expr}
      {value : Value} {function : Callable} :
      expression limit fuel callee machine = (.value value, after) →
      value.callable? = some function →
      Starts (.expression (.call callee paren arguments)) machine (.each arguments) after
  | called {machine after ready : Machine} {callee : Expr} {paren : Token} {arguments : List Expr}
      {value : Value} {function : Callable} {values : List Value} :
      expression limit fuel callee machine = (.value value, after) →
      value.callable? = some function → each limit fuel arguments after = (.value values, ready) →
      values.length = function.arity → limit.any (· ≤ ready.callDepth) = false →
      Starts (.expression (.call callee paren arguments)) machine (.call function values)
        { ready with callDepth := ready.callDepth + 1 }
  | first {machine : Machine} {first : Expr} {others : List Expr} :
      Starts (.each (first :: others)) machine (.expression first) machine
  | others {machine after : Machine} {first : Expr} {others : List Expr} {value : Value} :
      expression limit fuel first machine = (.value value, after) →
      Starts (.each (first :: others)) machine (.each others) after
  | execution {machine : Machine} {function : Function} {values : List Value} :
      Starts (.call (.declared function) values) machine (.body function.body)
        (machine.enter function.closure function.parameters values)
  | evaluated {machine : Machine} {value : Expr} :
      Starts (.statement (.expression value)) machine (.expression value) machine
  | printed {machine : Machine} {value : Expr} :
      Starts (.statement (.print value)) machine (.expression value) machine
  | initial {machine : Machine} {name : Token} {initial : Expr} :
      Starts (.statement (.var name (some initial))) machine (.expression initial) machine
  | block {machine : Machine} {statements : List Stmt} :
      Starts (.statement (.block statements)) machine (.body statements)
        (machine.enter machine.current [] [])
  | condition {machine : Machine} {condition : Expr} {consequent : Stmt}
      {alternative : Option Stmt} :
      Starts (.statement (.branch condition consequent alternative)) machine
        (.expression condition) machine
  | consequent {machine after : Machine} {condition : Expr} {consequent : Stmt}
      {alternative : Option Stmt} {value : Value} :
      expression limit fuel condition machine = (.value value, after) → value.isTruthy = true →
      Starts (.statement (.branch condition consequent alternative)) machine
        (.statement consequent) after
  | alternative {machine after : Machine} {condition : Expr} {consequent alternative : Stmt}
      {value : Value} :
      expression limit fuel condition machine = (.value value, after) → value.isTruthy = false →
      Starts (.statement (.branch condition consequent (some alternative))) machine
        (.statement alternative) after
  | test {machine : Machine} {condition : Expr} {repeated : Stmt} :
      Starts (.statement (.loop condition repeated)) machine (.expression condition) machine
  | round {machine after : Machine} {condition : Expr} {repeated : Stmt} {value : Value} :
      expression limit fuel condition machine = (.value value, after) → value.isTruthy = true →
      Starts (.statement (.loop condition repeated)) machine (.statement repeated) after
  | again {machine after later : Machine} {condition : Expr} {repeated : Stmt} {value : Value} :
      expression limit fuel condition machine = (.value value, after) → value.isTruthy = true →
      statement limit fuel repeated after = (.value .normal, later) →
      Starts (.statement (.loop condition repeated)) machine
        (.statement (.loop condition repeated)) later
  | returned {machine : Machine} {keyword : Token} {value : Expr} :
      Starts (.statement (.ret keyword (some value))) machine (.expression value) machine
  | head {machine : Machine} {first : Stmt} {others : List Stmt} :
      Starts (.body (first :: others)) machine (.statement first) machine
  | rest {machine after : Machine} {first : Stmt} {others : List Stmt} :
      statement limit fuel first machine = (.value .normal, after) →
      Starts (.body (first :: others)) machine (.body others) after

/-- What happens during a task: the task itself, the parts it starts, and what happens
during these. The numbers are the fuel that is left. -/
inductive During : Nat → Task → Machine → Nat → Task → Machine → Prop
  | self {fuel : Nat} {task : Task} {machine : Machine} :
      During fuel task machine fuel task machine
  | part {fuel left : Nat} {task outer part : Task} {machine reached start : Machine} :
      During fuel task machine (left + 1) outer reached →
      Starts limit left outer reached part start → During fuel task machine left part start

variable {limit fuel}

/-! ## The current scope is live -/

section

variable {machine after : Machine}

theorem restored_of_expression {node : Expr} {exit : Exit Fault Value}
    (h : expression limit fuel node machine = (exit, after)) : machine.Restored after := by
  have hrestored := ((Machine.restoration.kept limit fuel).expression node machine trivial).2.1
  rw [h] at hrestored
  exact hrestored

theorem restored_of_each {nodes : List Expr} {exit : Exit Fault (List Value)}
    (h : each limit fuel nodes machine = (exit, after)) : machine.Restored after := by
  have hrestored := ((Machine.restoration.kept limit fuel).each nodes machine trivial).2.1
  rw [h] at hrestored
  exact hrestored

theorem restored_of_statement {node : Stmt} {exit : Exit Fault Flow}
    (h : statement limit fuel node machine = (exit, after)) : machine.Restored after := by
  have hrestored := ((Machine.restoration.kept limit fuel).statement node machine trivial).2.1
  rw [h] at hrestored
  exact hrestored

theorem restored_of_orNil {node : Option Expr} {exit : Exit Fault Value}
    (h : orNil limit fuel node machine = (exit, after)) : machine.Restored after := by
  have hrestored := ((Machine.restoration.kept limit fuel).orNil node machine trivial).2.1
  rw [h] at hrestored
  exact hrestored

end

end Eval

namespace Machine

/-- The current scope of the machine is live. -/
def Live (machine : Machine) : Prop :=
  machine.current.index < machine.environment.depth

variable {machine after : Machine}

theorem Live.restored (h : machine.Live) (hrestored : machine.Restored after) : after.Live := by
  rw [Live, hrestored.current, hrestored.depth]
  exact h

theorem live_enter {enclosing : ScopeId} {names : List Token} {values : List Value} :
    (machine.enter enclosing names values).Live := by
  rw [Live, depth_enter]
  exact Nat.lt_succ_self _

end Machine

namespace Eval

variable {limit : Option Nat} {fuel left : Nat} {task part : Task} {machine reached : Machine}

/-- A part of an evaluation starts with a live current scope, if the whole does. -/
theorem Starts.live (h : Starts limit fuel task machine part reached) (hlive : machine.Live) :
    reached.Live := by
  cases h with
  | right h => exact hlive.restored (restored_of_expression h)
  | undecided h _ => exact hlive.restored (restored_of_expression h)
  | arguments h _ => exact hlive.restored (restored_of_expression h)
  | called h _ hvalues _ _ =>
      have hafter := hlive.restored (restored_of_expression h)
      have hready := hafter.restored (restored_of_each hvalues)
      exact hready
  | others h => exact hlive.restored (restored_of_expression h)
  | execution => exact Machine.live_enter
  | block => exact Machine.live_enter
  | consequent h _ => exact hlive.restored (restored_of_expression h)
  | alternative h _ => exact hlive.restored (restored_of_expression h)
  | round h _ => exact hlive.restored (restored_of_expression h)
  | again h _ hround =>
      exact (hlive.restored (restored_of_expression h)).restored (restored_of_statement hround)
  | rest h => exact hlive.restored (restored_of_statement h)
  | _ => exact hlive

theorem During.live (h : During limit fuel task machine left part reached)
    (hlive : machine.Live) : reached.Live := by
  induction h with
  | self => exact hlive
  | part _ hstarts ih => exact hstarts.live (ih hlive)

end Eval

end LoxLang
