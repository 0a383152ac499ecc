/-
# Requests

A machine outlives the evaluations it is used for. It can be asked for one after the
other: to run programs, to execute single statements, to evaluate expressions, and to
call functions whatever their arguments. Some of these may fail; the machine can be used
after that as before, with no scope left over and none missing, and no declaration is lost.
-/

import LoxLang.Proofs.Evaluation.Declarations

namespace LoxLang

/-- What a machine can be asked for. -/
inductive Request
  | interpret (program : Program)
  | execute (node : Stmt)
  | evaluate (node : Expr)
  | call (function : Callable) (arguments : List Value)

namespace Request

variable (limit : Option Nat) (fuel : Nat)

/-- What is evaluated for a request. -/
def task : Request → Eval.Task
  | .interpret program => .body program
  | .execute node => .statement node
  | .evaluate node => .expression node
  | .call function arguments => .call function arguments

/-- The machine that a request leaves behind, whether it succeeds or not. -/
def perform (machine : Machine) : Request → Machine
  | .interpret program => (Eval.program limit fuel program machine).2
  | .execute node => (Eval.statement limit fuel node machine).2
  | .evaluate node => (Eval.expression limit fuel node machine).2
  | .call function arguments => (Eval.call limit fuel function arguments machine).2

/-- The machine that requests leave behind, each with fuel of its own. -/
def performAll (machine : Machine) : List (Nat × Request) → Machine
  | [] => machine
  | (fuel, request) :: others => performAll (request.perform limit fuel machine) others

variable {limit fuel} {machine : Machine}

theorem restored_perform (request : Request) :
    machine.Restored (request.perform limit fuel machine) := by
  cases request with
  | interpret program =>
      exact (Machine.restoration.keeps_program limit fuel program machine trivial).2.1
  | execute node => exact ((Machine.restoration.kept limit fuel).statement node machine trivial).2.1
  | evaluate node =>
      exact ((Machine.restoration.kept limit fuel).expression node machine trivial).2.1
  | call function arguments =>
      have hcall : Machine.restoration.Keeps .evaluating (fun _ => True)
          (Eval.call limit fuel function arguments) :=
        (Machine.restoration.kept limit fuel).call trivial fun _ _ => trivial
      exact (hcall machine trivial).2.1

theorem restored_performAll (requests : List (Nat × Request)) :
    machine.Restored (performAll limit machine requests) := by
  induction requests generalizing machine with
  | nil => exact .refl machine
  | cons first others ih =>
      obtain ⟨fuel, request⟩ := first
      rw [performAll]
      exact (restored_perform request).trans ih

end Request

namespace Machine

variable (clock : Clock) (output : Sink)

theorem depth_start : (start clock output).environment.depth = 1 := by
  rw [start_environment, Environment.depth_define]
  rfl

/-- A machine that has run nothing yet is well formed. -/
theorem wellFormed_start : (start clock output).WellFormed := by
  constructor
  · rw [depth_start]
    exact Nat.zero_lt_one
  · intro scope enclosing hlocal henclosing
    have hlive : ¬ (start clock output).environment.depth ≤ scope.index := by
      rw [← Environment.enclosing?_eq_none_iff, henclosing]
      simp
    rw [depth_start] at hlive
    have hindex : scope.index = 0 := by omega
    exact absurd (congrArg ScopeId.mk hindex) hlocal
  · intro value hstored
    rw [eq_clock_of_stores_start hstored]
    trivial

/-- Evaluation puts every well-formed machine back, but for what its scopes bind, and
keeps it well formed, however it ends. So whatever has been asked of a machine before,
its global scope is the only live one and the current one, and no call is in progress.
And no name that is declared in the course of a request is lost. -/
theorem evaluation_restores (limit : Option Nat) :
    (∀ fuel (machine : Machine), machine.WellFormed →
      (∀ node, machine.Restored (Eval.statement limit fuel node machine).2 ∧
        (Eval.statement limit fuel node machine).2.WellFormed) ∧
      (∀ node, machine.Restored (Eval.expression limit fuel node machine).2 ∧
        (Eval.expression limit fuel node machine).2.WellFormed)) ∧
    (∀ clock output requests,
      (Request.performAll limit (start clock output) requests).environment.depth = 1 ∧
      (Request.performAll limit (start clock output) requests).current = .global ∧
      (Request.performAll limit (start clock output) requests).callDepth = 0) ∧
    (∀ clock output requests fuel (request : Request) left part reached,
      Eval.During limit fuel request.task (Request.performAll limit (start clock output) requests)
        (left + 1) part reached → Eval.TakesEffect limit left reached part) := by
  refine ⟨fun fuel machine hwell => ⟨fun node => ?_, fun node => ?_⟩, ?_, ?_⟩
  · obtain ⟨hafter, hrestored, _⟩ := (wellFormedness.kept limit fuel).statement node machine hwell
    exact ⟨hrestored, hafter⟩
  · obtain ⟨hafter, hrestored, _⟩ := (wellFormedness.kept limit fuel).expression node machine hwell
    exact ⟨hrestored, hafter⟩
  · intro clock output requests
    have hrestored : (start clock output).Restored
        (Request.performAll limit (start clock output) requests) :=
      Request.restored_performAll requests
    exact ⟨by rw [hrestored.depth, depth_start], hrestored.current, hrestored.callDepth⟩
  · intro clock output requests fuel request left part reached hduring
    have hlive : (Request.performAll limit (start clock output) requests).Live :=
      Live.restored (wellFormed_start clock output).current_live
        (Request.restored_performAll requests)
    exact Eval.takesEffect limit left (hduring.live hlive) part

/-- A block that declares a name, executed on a machine that has run nothing yet. The
declaration leaves the name bound in the scope of the block. -/
theorem evaluation_restores_block :
    (start (.ticking 0) .unlimited).Restored (Eval.statement (some maxCallDepth) 3
      (.block [.var ⟨.identifier, "a", none, 1⟩ none]) (start (.ticking 0) .unlimited)).2 ∧
    ∃ after, Eval.statement (some maxCallDepth) 1 (.var ⟨.identifier, "a", none, 1⟩ none)
        ((start (.ticking 0) .unlimited).enter .global [] []) = (.value .normal, after) ∧
      after.Binds "a" .nil := by
  obtain ⟨hrestores, _, heffect⟩ := evaluation_restores (some maxCallDepth)
  constructor
  · exact ((hrestores 3 _ (wellFormed_start (.ticking 0) .unlimited)).1 _).1
  · obtain ⟨after, _, hexecuted, hbinds⟩ := heffect (.ticking 0) .unlimited [] 3
      (.execute (.block [.var ⟨.identifier, "a", none, 1⟩ none])) 0
      (.statement (.var ⟨.identifier, "a", none, 1⟩ none)) _ (.part (.part .self .block) .head)
      .nil _ rfl
    exact ⟨after, hexecuted, hbinds⟩

end Machine

end LoxLang
