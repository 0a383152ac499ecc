/-
# Running refines meaning

What is run and what is meant agree in all that can be told of either: an evaluation ends
exactly if the rules give it an end, and then in the same way and in the same setting. So
the scopes, their addresses and the order they are released in are not seen in what a
program does.
-/

import LoxLang.Proofs.Evaluation.MeaningComplete
import LoxLang.Proofs.Evaluation.Requests

namespace LoxLang

namespace Meaning

variable {α : Type}

/-- Whenever the action ends, it does so as is meant, and whatever is meant is what it
ends with, given enough fuel. The scopes that are not in sight are left as they were, so
that there is no more to the machine than its view. -/
structure Refines (action : Nat → Action α) (meant : Setting → Except Fault α → Setting → Prop)
    (machine : Machine) : Prop where
  sound {fuel : Nat} {result : Except Fault α} {after : Machine} :
    action fuel machine = (.ofResult result, after) → meant machine.view result after.view
  complete {result : Except Fault α} {shown : Setting} :
    meant machine.view result shown → Settles action machine result shown
  framed (fuel : Nat) : machine.Framed (action fuel machine).2

theorem refines_of_finishes {action : Nat → Action α} {phase : Phase} {P : α → Prop}
    {meant : Setting → Except Fault α → Setting → Prop} {machine : Machine}
    (hm : machine.Standing)
    (hfinishes : ∀ fuel, Finishes (meant machine.view) (action fuel machine))
    (hsettles : ∀ result shown, meant machine.view result shown →
      Settles action machine result shown)
    (hkeeps : ∀ fuel, Machine.framing.Keeps phase P (action fuel)) :
    Refines action meant machine := by
  constructor
  · intro fuel result after heq
    have h := hfinishes fuel
    rw [heq] at h
    cases result with
    | ok value => exact h
    | error fault => exact h
  · intro result shown h
    exact hsettles result shown h
  · intro fuel
    exact (hkeeps fuel machine hm).2.1

variable {limit : Option Nat} {machine : Machine}

theorem Runs.settles {program : Program} {result : Except Fault Unit} {shown : Setting}
    (h : Runs limit program machine.view result shown) (hm : machine.Standing) :
    Settles (fun fuel => Eval.program limit fuel program) machine result shown := by
  cases h with
  | failed h => exact (h.settles hm rfl).bind_fault
  | flushed h hflush =>
      apply (h.settles hm rfl).bind
      intro fuel after _ hafter
      rw [← hafter] at hflush ⊢
      exact .of_eq (fun _ => request_eq hflush) rfl
  | unflushed h hflush =>
      apply (h.settles hm rfl).bind
      intro fuel after _ hafter
      rw [← hafter] at hflush ⊢
      exact .of_eq (fun _ => request_eq hflush) rfl

end Meaning

namespace Machine

/-- A machine that has run nothing yet is standing, and evaluation keeps it so. -/
theorem standing_start (clock : Clock) (output : Sink) : (start clock output).Standing := by
  refine ⟨wellFormed_start clock output, rfl, ?_⟩
  intro scope hlocal hlive
  rw [depth_start] at hlive
  have hindex : scope.index = 0 := by omega
  exact absurd (congrArg ScopeId.mk hindex) hlocal

/-- On every machine that is well formed and whose scopes lead outwards to the global one,
evaluation ends exactly if there is an end to what the expression, the statement or the
program means, and then with the same result or fault, and showing the same setting. -/
theorem evaluation_refines (limit : Option Nat) (machine : Machine) (h : machine.Standing) :
    (∀ node, Meaning.Refines (fun fuel => Eval.expression limit fuel node)
      (Meaning.Evaluates limit node) machine) ∧
    (∀ node, Meaning.Refines (fun fuel => Eval.statement limit fuel node)
      (Meaning.Executes limit node) machine) ∧
    (∀ program, Meaning.Refines (fun fuel => Eval.program limit fuel program)
      (Meaning.Runs limit program) machine) := by
  refine ⟨fun node => ?_, fun node => ?_, fun program => ?_⟩
  · apply Meaning.refines_of_finishes h
    · intro fuel
      exact (Meaning.meant limit fuel).expression node h
    · intro result shown hmeant
      exact hmeant.settles h rfl
    · intro fuel
      exact (framing.kept limit fuel).expression node
  · apply Meaning.refines_of_finishes h
    · intro fuel
      exact (Meaning.meant limit fuel).statement node h
    · intro result shown hmeant
      exact hmeant.settles h rfl
    · intro fuel
      exact (framing.kept limit fuel).statement node
  · apply Meaning.refines_of_finishes h
    · intro fuel
      exact Meaning.meant_program limit fuel program h
    · intro result shown hmeant
      exact hmeant.settles h
    · intro fuel
      exact framing.keeps_program limit fuel program

/-- A block that declares a name leaves a machine showing what it did before. -/
theorem evaluation_refines_block :
    (start (.ticking 0) .unlimited).Standing ∧
    Meaning.Settles
      (fun fuel => Eval.statement (some maxCallDepth) fuel
        (.block [.var ⟨.identifier, "a", none, 1⟩ none]))
      (start (.ticking 0) .unlimited) (.ok .normal) (start (.ticking 0) .unlimited).view := by
  have hstanding := standing_start (.ticking 0) .unlimited
  obtain ⟨_, hstatement, _⟩ := evaluation_refines (some maxCallDepth) _ hstanding
  exact ⟨hstanding, (hstatement _).complete (.block (.cons .varBare .nil))⟩

end Machine

end LoxLang
