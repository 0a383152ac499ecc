/-
# Declarations take effect

A binding is made in the scope that an address names, and it is lost without a word if
that scope is gone. In an evaluation none is lost. Where a variable or a function is
declared the current scope is live, and the statement leaves a machine whose current
scope binds the name. Where a function is called, its body is run on a machine whose
current scope is live and binds the parameters.
-/

import LoxLang.Proofs.Evaluation.Parts
import LoxLang.Proofs.Evaluation.View

namespace LoxLang

namespace Machine

/-- The current scope is live, and it binds the name to the value. -/
structure Binds (machine : Machine) (name : String) (value : Value) : Prop where
  live : machine.Live
  found : machine.environment.search machine.current name = .found machine.current value

variable {machine : Machine} {value : Value}

/-- A binding that is made in the current scope is not lost, if the scope is live. -/
theorem Live.binds_declare (h : machine.Live) (name : Token) (value : Value) :
    ∃ after, Action.declare name value machine = (.value (), after) ∧
      after.Binds name.lexeme value := by
  refine ⟨_, rfl, ?live, ?found⟩
  case live => exact h.restored (restored_define machine.current name.lexeme value)
  case found =>
    apply Environment.search_of_find?
    · rw [Environment.depth_define]
      exact h
    · rw [Environment.bindingsAt_define h, if_pos rfl, Bindings.find?_bind_self]

/-- In a scope that is opened for names and values each name is bound to the last value
that is meant for it. -/
theorem binds_enter (enclosing : ScopeId) {names : List Token} {values : List Value}
    {earlier later : List (Token × Value)} {name : Token}
    (h : names.zip values = earlier ++ (name, value) :: later)
    (hlast : ∀ entry ∈ later, entry.1.lexeme ≠ name.lexeme) :
    (machine.enter enclosing names values).Binds name.lexeme value := by
  have hzip : (names.map Token.lexeme).zip values =
      earlier.map (Prod.map Token.lexeme id) ++
        (name.lexeme, value) :: later.map (Prod.map Token.lexeme id) := by
    rw [List.zip_map_left, h, List.map_append, List.map_cons]
    rfl
  have hother : ∀ entry ∈ later.map (Prod.map Token.lexeme id), entry.1 ≠ name.lexeme := by
    intro entry hentry
    obtain ⟨pair, hpair, rfl⟩ := List.mem_map.mp hentry
    exact hlast pair hpair
  refine ⟨live_enter, Environment.search_of_find? live_enter ?_⟩
  show Bindings.find? _ ((machine.enter enclosing names values).environment.bindingsAt
    machine.environment.next) = _
  rw [bindingsAt_enter, if_pos rfl]
  exact Bindings.find?_bindAll hzip hother

end Machine

namespace Eval

variable {limit : Option Nat} {fuel left : Nat} {task part : Task} {machine reached : Machine}

/-- A call leaves what its body leaves, once the scope of the parameters is released. -/
theorem call_leaves (limit : Option Nat) (fuel : Nat) (function : Function) (values : List Value)
    (machine : Machine) :
    (call limit (fuel + 1) (.declared function) values machine).2 =
      machine.leave (body limit fuel function.body
        (machine.enter function.closure function.parameters values)).2 := by
  rw [call.eq_def]
  show (Action.bind (Action.inScope function.closure function.parameters values
    (body limit fuel function.body)) _ machine).2 = _
  rw [Action.bind, Action.inScope_apply]
  rcases (body limit fuel function.body
    (machine.enter function.closure function.parameters values)).1 with flow | fault | _ <;> rfl

/-- What the task itself declares, given one more than the fuel, is bound thereafter: a
variable or a function on the machine that the statement leaves, and parameters on the
machine that the body of the function is run on. -/
def TakesEffect (limit : Option Nat) (fuel : Nat) (machine : Machine) : Task → Prop
  | .statement (.var name initial) =>
    ∀ value ready, orNil limit fuel initial machine = (.value value, ready) →
      ∃ after, Action.declare name value ready = (.value (), after) ∧
        statement limit (fuel + 1) (.var name initial) machine = (.value .normal, after) ∧
        after.Binds name.lexeme value
  | .statement (.function name parameters body) =>
    ∃ function ready after,
      Action.makeFunction name parameters body machine = (.value function, ready) ∧
      Action.declare name function ready = (.value (), after) ∧
      statement limit (fuel + 1) (.function name parameters body) machine =
        (.value .normal, after) ∧
      after.Binds name.lexeme function
  | .call (.declared function) values =>
    ∃ entered,
      (∀ action : Action Flow,
        Action.inScope function.closure function.parameters values action machine =
          ((action entered).1, machine.leave (action entered).2)) ∧
      (call limit (fuel + 1) (.declared function) values machine).2 =
        machine.leave (body limit fuel function.body entered).2 ∧
      ∀ earlier name value later,
        function.parameters.zip values = earlier ++ (name, value) :: later →
        (∀ entry ∈ later, entry.1.lexeme ≠ name.lexeme) → entered.Binds name.lexeme value
  | _ => True

/-- On a machine whose current scope is live every declaration takes effect. -/
theorem takesEffect (limit : Option Nat) (fuel : Nat) (h : machine.Live) (task : Task) :
    TakesEffect limit fuel machine task := by
  cases task with
  | statement node =>
      cases node with
      | var name initial =>
          intro value ready hinitial
          have hready : ready.Live := h.restored (restored_of_orNil hinitial)
          obtain ⟨after, hdeclared, hbinds⟩ := hready.binds_declare name value
          refine ⟨after, hdeclared, ?_, hbinds⟩
          rw [statement_var]
          show Action.bind (orNil limit fuel initial) _ machine = _
          rw [Action.bind, hinitial]
          show Action.bind (Action.declare name value) _ ready = _
          rw [Action.bind, hdeclared]
          rfl
      | function name parameters body =>
          have hready : Machine.Live { machine with supply := machine.supply + 1 } := h
          obtain ⟨after, hdeclared, hbinds⟩ := hready.binds_declare name
            (.callable (.declared ⟨name, parameters, body, .global, machine.supply⟩))
          refine ⟨_, _, after, rfl, hdeclared, ?_, hbinds⟩
          rw [statement.eq_def]
          show Action.bind (Action.makeFunction name parameters body) _ machine = _
          rw [Action.bind, Action.makeFunction]
          show Action.bind (Action.declare name _) _ _ = _
          rw [Action.bind, hdeclared]
          rfl
      | _ => trivial
  | call function values =>
      cases function with
      | declared function =>
          refine ⟨machine.enter function.closure function.parameters values,
            fun action => Action.inScope_apply _ _ _ action machine,
            call_leaves limit fuel function values machine, ?_⟩
          intro earlier name value later hzip hlast
          exact Machine.binds_enter function.closure hzip hlast
      | native builtin identity => trivial
  | _ => trivial

end Eval

end LoxLang
