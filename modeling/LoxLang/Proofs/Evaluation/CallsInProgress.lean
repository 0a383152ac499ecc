/-
# Calls in progress

While a part of an evaluation runs, those parts are in progress that it was started by, one
inside the other. The calls among them are counted here along the way from the whole to the
part. A machine counts them too, and comes to the same number: when a part starts, and again
when it ends, whether it has a result, fails or runs out of fuel. Calls that are over do not
count, nor do those in arguments that have been evaluated.
-/

import LoxLang.Proofs.Evaluation.Parts

namespace LoxLang.Eval

/-- How many calls the task itself is. -/
def Task.calls : Task → Nat
  | .call _ _ => 1
  | _ => 0

/-- The machine that the task leaves, however it ends. -/
def Task.last (limit : Option Nat) (fuel : Nat) : Task → Machine → Machine
  | .expression node, machine => (Eval.expression limit fuel node machine).2
  | .each nodes, machine => (Eval.each limit fuel nodes machine).2
  | .call function values, machine => (Eval.call limit fuel function values machine).2
  | .statement node, machine => (Eval.statement limit fuel node machine).2
  | .body nodes, machine => (Eval.body limit fuel nodes machine).2

variable (limit : Option Nat)

/-- What happens during a task, with the calls that are then in progress and started since
the task did. The numbers before the tasks are the fuel that is left. -/
inductive Within : Nat → Task → Machine → Nat → Task → Machine → Nat → Prop
  | self {fuel : Nat} {task : Task} {machine : Machine} :
      Within fuel task machine fuel task machine 0
  | part {fuel left calls : Nat} {task outer part : Task} {machine reached start : Machine} :
      Within fuel task machine (left + 1) outer reached calls →
      Starts limit left outer reached part start →
      Within fuel task machine left part start (calls + part.calls)

/-- The call, given one more than the fuel, comes to call the function with the values. It
is located at the token, and the last machine is the one that its arguments leave. -/
inductive Ready (fuel : Nat) : Expr → Machine → Token → Callable → List Value → Machine → Prop
  | intro {callee : Expr} {paren : Token} {arguments : List Expr} {function : Callable}
      {machine after ready : Machine} {value : Value} {values : List Value} :
      expression limit fuel callee machine = (.value value, after) →
      value.callable? = some function → each limit fuel arguments after = (.value values, ready) →
      values.length = function.arity →
      Ready fuel (.call callee paren arguments) machine paren function values ready

variable {limit} {fuel left calls : Nat} {task part : Task} {machine reached start : Machine}

/-- What happens during an evaluation happens with some number of calls in progress. -/
theorem during_iff_within : During limit fuel task machine left part start ↔
    ∃ calls, Within limit fuel task machine left part start calls := by
  constructor
  · intro h
    induction h with
    | self => exact ⟨0, .self⟩
    | part _ hstarts ih =>
        obtain ⟨calls, hwithin⟩ := ih
        exact ⟨_, hwithin.part hstarts⟩
  · rintro ⟨calls, h⟩
    induction h with
    | self => exact .self
    | part _ hstarts ih => exact ih.part hstarts

/-- What happens during a part happens during the whole. -/
theorem Starts.within (h : Starts limit fuel task machine part start) {inner : Task}
    (hwithin : Within limit fuel part start left inner reached calls) :
    Within limit (fuel + 1) task machine left inner reached (part.calls + calls) := by
  induction hwithin with
  | self =>
      have hpart := Within.self.part h
      rw [Nat.zero_add] at hpart
      exact hpart
  | part _ hstarts ih =>
      rw [← Nat.add_assoc]
      exact (ih h).part hstarts

/-! ## The machine counts them -/

/-- A part starts on a machine that counts the calls of the whole, and itself. -/
theorem Starts.callDepth (h : Starts limit fuel task machine part start) :
    start.callDepth = machine.callDepth + part.calls := by
  cases h with
  | right h => exact (restored_of_expression h).callDepth
  | undecided h _ => exact (restored_of_expression h).callDepth
  | arguments h _ => exact (restored_of_expression h).callDepth
  | called h _ hvalues _ _ =>
      have hready := (restored_of_expression h).trans (restored_of_each hvalues)
      exact congrArg (· + 1) hready.callDepth
  | others h => exact (restored_of_expression h).callDepth
  | consequent h _ => exact (restored_of_expression h).callDepth
  | alternative h _ => exact (restored_of_expression h).callDepth
  | round h _ => exact (restored_of_expression h).callDepth
  | again h _ hround =>
      exact ((restored_of_expression h).trans (restored_of_statement hround)).callDepth
  | rest h => exact (restored_of_statement h).callDepth
  | _ => rfl

/-- A task that ends leaves as many calls in progress as it found. -/
theorem Task.restored_last (task : Task) : machine.Restored (task.last limit fuel machine) := by
  cases task with
  | expression node => exact restored_of_expression rfl
  | each nodes => exact restored_of_each rfl
  | call function values =>
      have hcall : Machine.restoration.Keeps .evaluating (fun _ => True)
          (Eval.call limit fuel function values) :=
        (Machine.restoration.kept limit fuel).call trivial fun _ _ => trivial
      exact (hcall machine trivial).2.1
  | statement node => exact restored_of_statement rfl
  | body nodes => exact ((Machine.restoration.kept limit fuel).body nodes machine trivial).2.1

theorem Within.callDepth (h : Within limit fuel task machine left part start calls) :
    start.callDepth = machine.callDepth + calls := by
  induction h with
  | self => rfl
  | part _ hstarts ih => rw [hstarts.callDepth, ih, Nat.add_assoc]

/-- What a call is evaluated on and what its arguments leave have the same calls in
progress. -/
theorem Ready.callDepth {node : Expr} {paren : Token} {function : Callable} {values : List Value}
    {ready : Machine} (h : Ready limit fuel node machine paren function values ready) :
    ready.callDepth = machine.callDepth := by
  cases h with
  | intro h _ hvalues _ =>
      exact ((restored_of_expression h).trans (restored_of_each hvalues)).callDepth

/-- A limit is not exceeded. -/
theorem Starts.callDepth_le {bound : Nat} (h : Starts (some bound) fuel task machine part start)
    (hbound : machine.callDepth ≤ bound) : start.callDepth ≤ bound := by
  have hcalls := h.callDepth
  cases h with
  | called _ _ _ _ hlimit => exact Nat.lt_of_not_le (of_decide_eq_false hlimit)
  | _ => exact Nat.le_trans (Nat.le_of_eq hcalls) hbound

theorem Within.callDepth_le {bound : Nat}
    (h : Within (some bound) fuel task machine left part start calls)
    (hbound : machine.callDepth ≤ bound) : start.callDepth ≤ bound := by
  induction h with
  | self => exact hbound
  | part _ hstarts ih => exact hstarts.callDepth_le (ih hbound)

end LoxLang.Eval
