/-
# Executions of declarations

Every time a declaration of a function is executed, a function is made. This module lists
the functions that are made during a task in the order of these executions, so that an
execution can be told by its place in the list, whatever the text of its declaration.

The list follows the parts of a task in the order in which they are started. These are the
parts that the task starts, and what happens during it makes the functions that are listed.
-/

import LoxLang.Proofs.Evaluation.CallsInProgress

namespace LoxLang

/-! ## What follows an outcome -/

section

variable {ε α β : Type}

/-- What follows an outcome if it is a result. -/
def following (next : α → Machine → List β) : Exit ε α × Machine → List β
  | (.value result, after) => next result after
  | (.fault _, _) => []
  | (.outOfFuel, _) => []

theorem mem_following {next : α → Machine → List β} {outcome : Exit ε α × Machine} {entry : β} :
    entry ∈ following next outcome ↔
      ∃ result after, outcome = (.value result, after) ∧ entry ∈ next result after := by
  constructor
  · intro h
    rcases outcome with ⟨result | cause | _, after⟩
    · exact ⟨result, after, rfl, h⟩
    · cases h
    · cases h
  · rintro ⟨result, after, rfl, h⟩
    exact h

end

namespace Eval

/-! ## The parts of a task in order -/

section

variable (limit : Option Nat) (fuel : Nat)

/-- The call, once it is known what is called and with which values, unless it fails. -/
def callParts (function : Callable) (values : List Value) (ready : Machine) :
    List (Task × Machine) :=
  if values.length = function.arity ∧ limit.any (· ≤ ready.callDepth) = false then
    [(.call function values, { ready with callDepth := ready.callDepth + 1 })]
  else []

/-- The parts of an expression, evaluated with one more than the fuel. -/
def expressionParts : Expr → Machine → List (Task × Machine)
  | .literal _, _ => []
  | .variable _, _ => []
  | .grouping inner, machine => [(.expression inner, machine)]
  | .unary _ operand, machine => [(.expression operand, machine)]
  | .assign _ value, machine => [(.expression value, machine)]
  | .binary left _ right, machine =>
    (.expression left, machine) ::
      following (fun _ after => [(.expression right, after)]) (expression limit fuel left machine)
  | .logical left operator right, machine =>
    (.expression left, machine) ::
      following (fun value after =>
        if value.decides operator.kind then [] else [(.expression right, after)])
        (expression limit fuel left machine)
  | .call callee _ arguments, machine =>
    (.expression callee, machine) ::
      following (fun value after =>
        match value.callable? with
        | none => []
        | some function =>
          (.each arguments, after) ::
            following (callParts limit function) (each limit fuel arguments after))
        (expression limit fuel callee machine)

/-- The expression that a value is taken from, if there is one. -/
def initialParts : Option Expr → Machine → List (Task × Machine)
  | none, _ => []
  | some initial, machine => [(.expression initial, machine)]

/-- The parts of a statement, executed with one more than the fuel. -/
def statementParts : Stmt → Machine → List (Task × Machine)
  | .expression value, machine => [(.expression value, machine)]
  | .print value, machine => [(.expression value, machine)]
  | .var _ initial, machine => initialParts initial machine
  | .block statements, machine => [(.body statements, machine.enter machine.current [] [])]
  | .branch condition consequent alternative, machine =>
    (.expression condition, machine) ::
      following (fun value after =>
        if value.isTruthy then [(.statement consequent, after)]
        else
          match alternative with
          | none => []
          | some alternative => [(.statement alternative, after)])
        (expression limit fuel condition machine)
  | .loop condition repeated, machine =>
    (.expression condition, machine) ::
      following (fun value after =>
        if value.isTruthy then
          (.statement repeated, after) ::
            following (fun
              | .normal, later => [(.statement (.loop condition repeated), later)]
              | .returned _, _ => [])
              (statement limit fuel repeated after)
        else [])
        (expression limit fuel condition machine)
  | .function _ _ _, _ => []
  | .ret _ value, machine => initialParts value machine

/-- The parts of a task that is given one more than the fuel, in the order in which they are
started. -/
def Task.parts : Task → Machine → List (Task × Machine)
  | .expression node, machine => expressionParts limit fuel node machine
  | .each [], _ => []
  | .each (first :: others), machine =>
    (.expression first, machine) ::
      following (fun _ after => [(.each others, after)]) (Eval.expression limit fuel first machine)
  | .call (.native _ _) _, _ => []
  | .call (.declared function) values, machine =>
    [(.body function.body, machine.enter function.closure function.parameters values)]
  | .statement node, machine => statementParts limit fuel node machine
  | .body [], _ => []
  | .body (first :: others), machine =>
    (.statement first, machine) ::
      following (fun
        | .normal, after => [(.body others, after)]
        | .returned _, _ => [])
        (Eval.statement limit fuel first machine)

end

variable {limit : Option Nat} {fuel : Nat} {task part first : Task} {machine start begun : Machine}

theorem mem_single : (part, start) ∈ [(first, begun)] ↔ part = first ∧ start = begun := by
  rw [List.mem_singleton, Prod.mk.injEq]

theorem mem_cons_following {ε α : Type} {next : α → Machine → List (Task × Machine)}
    {outcome : Exit ε α × Machine} :
    (part, start) ∈ (first, begun) :: following next outcome ↔
      (part = first ∧ start = begun) ∨
        ∃ result after, outcome = (.value result, after) ∧ (part, start) ∈ next result after := by
  rw [List.mem_cons, Prod.mk.injEq, mem_following]

theorem starts_of_mem_expressionParts {node : Expr}
    (h : (part, start) ∈ expressionParts limit fuel node machine) :
    Starts limit fuel (.expression node) machine part start := by
  cases node with
  | literal value => cases h
  | «variable» name => cases h
  | grouping inner =>
      obtain ⟨rfl, rfl⟩ := mem_single.mp h
      exact .grouping
  | unary operator operand =>
      obtain ⟨rfl, rfl⟩ := mem_single.mp h
      exact .operand
  | assign name value =>
      obtain ⟨rfl, rfl⟩ := mem_single.mp h
      exact .assigned
  | binary left operator right =>
      rcases mem_cons_following.mp h with ⟨rfl, rfl⟩ | ⟨value, after, heq, hmem⟩
      · exact .left
      · obtain ⟨rfl, rfl⟩ := mem_single.mp hmem
        exact .right heq
  | logical left operator right =>
      rcases mem_cons_following.mp h with ⟨rfl, rfl⟩ | ⟨value, after, heq, hmem⟩
      · exact .deciding
      · split at hmem
        next => cases hmem
        next hundecided =>
          obtain ⟨rfl, rfl⟩ := mem_single.mp hmem
          exact .undecided heq (eq_false_of_ne_true hundecided)
  | call callee paren arguments =>
      rcases mem_cons_following.mp h with ⟨rfl, rfl⟩ | ⟨value, after, heq, hmem⟩
      · exact .callee
      · split at hmem
        next => cases hmem
        next function hfunction =>
          rcases mem_cons_following.mp hmem with ⟨rfl, rfl⟩ | ⟨values, ready, hvalues, hcall⟩
          · exact .arguments heq hfunction
          · rw [callParts] at hcall
            split at hcall
            next hcalled =>
              obtain ⟨rfl, rfl⟩ := mem_single.mp hcall
              exact .called heq hfunction hvalues hcalled.1 hcalled.2
            next => cases hcall

theorem starts_of_mem_statementParts {node : Stmt}
    (h : (part, start) ∈ statementParts limit fuel node machine) :
    Starts limit fuel (.statement node) machine part start := by
  cases node with
  | expression value =>
      obtain ⟨rfl, rfl⟩ := mem_single.mp h
      exact .evaluated
  | print value =>
      obtain ⟨rfl, rfl⟩ := mem_single.mp h
      exact .printed
  | var name initial =>
      cases initial with
      | none => cases h
      | some initial =>
          obtain ⟨rfl, rfl⟩ := mem_single.mp h
          exact .initial
  | block statements =>
      obtain ⟨rfl, rfl⟩ := mem_single.mp h
      exact .block
  | branch condition consequent alternative =>
      rcases mem_cons_following.mp h with ⟨rfl, rfl⟩ | ⟨value, after, heq, hmem⟩
      · exact .condition
      · split at hmem
        next hholds =>
          obtain ⟨rfl, rfl⟩ := mem_single.mp hmem
          exact .consequent heq hholds
        next hfails =>
          cases alternative with
          | none => cases hmem
          | some alternative =>
              obtain ⟨rfl, rfl⟩ := mem_single.mp hmem
              exact .alternative heq (eq_false_of_ne_true hfails)
  | loop condition repeated =>
      rcases mem_cons_following.mp h with ⟨rfl, rfl⟩ | ⟨value, after, heq, hmem⟩
      · exact .test
      · split at hmem
        next hholds =>
          rcases mem_cons_following.mp hmem with ⟨rfl, rfl⟩ | ⟨flow, later, hround, hagain⟩
          · exact .round heq hholds
          · cases flow with
            | normal =>
                obtain ⟨rfl, rfl⟩ := mem_single.mp hagain
                exact .again heq hholds hround
            | returned value => cases hagain
        next => cases hmem
  | function name parameters body => cases h
  | ret keyword value =>
      cases value with
      | none => cases h
      | some value =>
          obtain ⟨rfl, rfl⟩ := mem_single.mp h
          exact .returned

/-- The parts in order are the parts that the task starts. -/
theorem mem_parts_iff :
    (part, start) ∈ task.parts limit fuel machine ↔ Starts limit fuel task machine part start := by
  constructor
  · intro h
    cases task with
    | expression node => exact starts_of_mem_expressionParts h
    | each nodes =>
        cases nodes with
        | nil => cases h
        | cons first others =>
            rcases mem_cons_following.mp h with ⟨rfl, rfl⟩ | ⟨value, after, heq, hmem⟩
            · exact .first
            · obtain ⟨rfl, rfl⟩ := mem_single.mp hmem
              exact .others heq
    | call function values =>
        cases function with
        | native builtin identity => cases h
        | declared function =>
            obtain ⟨rfl, rfl⟩ := mem_single.mp h
            exact .execution
    | statement node => exact starts_of_mem_statementParts h
    | body nodes =>
        cases nodes with
        | nil => cases h
        | cons first others =>
            rcases mem_cons_following.mp h with ⟨rfl, rfl⟩ | ⟨flow, after, heq, hmem⟩
            · exact .head
            · cases flow with
              | normal =>
                  obtain ⟨rfl, rfl⟩ := mem_single.mp hmem
                  exact .rest heq
              | returned value => cases hmem
  · intro h
    cases h <;>
      simp_all [Task.parts, expressionParts, initialParts, statementParts, callParts, following]

/-! ## Functions made -/

/-- The functions that the task makes itself. -/
def Task.own : Task → Machine → List Function
  | .statement (.function name parameters statements), machine =>
    [⟨name, parameters, statements, .global, machine.supply⟩]
  | _, _ => []

/-- The functions that are made during a task, in the order in which their declarations are
executed. -/
def made (limit : Option Nat) : Nat → Task → Machine → List Function
  | 0, _, _ => []
  | fuel + 1, task, machine =>
    task.own machine ++
      (task.parts limit fuel machine).flatMap fun (part, start) => made limit fuel part start

variable {left : Nat} {inner : Task} {reached : Machine} {function : Function}

theorem mem_own_iff : function ∈ task.own machine ↔
    ∃ name parameters body, task = .statement (.function name parameters body) ∧
      function = ⟨name, parameters, body, .global, machine.supply⟩ := by
  constructor
  · intro h
    rw [Task.own.eq_def] at h
    split at h
    next name parameters body => exact ⟨name, parameters, body, rfl, List.mem_singleton.mp h⟩
    next => cases h
  · rintro ⟨name, parameters, body, rfl, rfl⟩
    exact List.mem_singleton_self _

theorem mem_made_succ : function ∈ made limit (fuel + 1) task machine ↔
    function ∈ task.own machine ∨ ∃ part start, Starts limit fuel task machine part start ∧
      function ∈ made limit fuel part start := by
  rw [made, List.mem_append, List.mem_flatMap]
  constructor
  · rintro (hown | ⟨⟨part, start⟩, hpart, hmade⟩)
    · exact .inl hown
    · exact .inr ⟨part, start, mem_parts_iff.mp hpart, hmade⟩
  · rintro (hown | ⟨part, start, hstarts, hmade⟩)
    · exact .inl hown
    · exact .inr ⟨(part, start), mem_parts_iff.mpr hstarts, hmade⟩

/-- What happens during a part of a task happens during the task. -/
theorem Starts.during (h : Starts limit fuel task machine part start)
    (hduring : During limit fuel part start left inner reached) :
    During limit (fuel + 1) task machine left inner reached := by
  obtain ⟨calls, hwithin⟩ := during_iff_within.mp hduring
  exact during_iff_within.mpr ⟨_, h.within hwithin⟩

/-- What is made during a part of a task is made during the task. -/
theorem During.made_subset (h : During limit fuel task machine left inner reached)
    (hmade : function ∈ made limit left inner reached) :
    function ∈ made limit fuel task machine := by
  induction h with
  | self => exact hmade
  | part _ hstarts ih => exact ih (mem_made_succ.mpr (.inr ⟨_, _, hstarts, hmade⟩))

/-- The functions that are made during a task are those of the declarations that are executed
during it. -/
theorem mem_made_iff : function ∈ made limit fuel task machine ↔
    ∃ left name parameters body reached,
      During limit fuel task machine (left + 1) (.statement (.function name parameters body))
        reached ∧
      function = ⟨name, parameters, body, .global, reached.supply⟩ := by
  constructor
  · intro h
    induction fuel generalizing task machine with
    | zero => cases h
    | succ fuel ih =>
        rcases mem_made_succ.mp h with hown | ⟨part, start, hstarts, hmade⟩
        · obtain ⟨name, parameters, body, rfl, rfl⟩ := mem_own_iff.mp hown
          exact ⟨fuel, name, parameters, body, machine, .self, rfl⟩
        · obtain ⟨left, name, parameters, body, reached, hduring, rfl⟩ := ih hmade
          exact ⟨left, name, parameters, body, reached, hstarts.during hduring, rfl⟩
  · rintro ⟨left, name, parameters, body, reached, hduring, rfl⟩
    apply hduring.made_subset
    exact mem_made_succ.mpr (.inl (mem_own_iff.mpr ⟨name, parameters, body, rfl, rfl⟩))

end Eval

end LoxLang
