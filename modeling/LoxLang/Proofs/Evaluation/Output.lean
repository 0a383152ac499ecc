/-
# What evaluation writes

Evaluation only ever adds to its output, and an output that works does not make it fail.

If an output is full, this changes nothing about the run except that it ends there. The
same run with an output that takes everything goes on to write more, and the bytes that
the full one has are the first of these.
-/

import LoxLang.Proofs.Evaluation.Comparison
import LoxLang.Proofs.Sink

namespace LoxLang

namespace Comparison

/-- A run whose output has the capacity for so many bytes, compared to the same run with
one that takes everything. -/
def truncation (capacity : Nat) : Comparison where
  line := id
  spare := 0
  InStep first second :=
    second.Works ∧ second.written.size ≤ capacity ∧ first = second.keeping capacity
  CutOff cause first second :=
    cause = some (.sink .full) ∧ second.Works ∧ capacity < second.written.size ∧
      first = second.keeping capacity
  Leads before fault after := before.Grows after ∧ (before.Works → fault = none)
  refl output := ⟨.refl output, fun _ => rfl⟩
  trans := by
    rintro before middle after fault ⟨hgrows, _⟩ ⟨hlater, hfault⟩
    exact ⟨hgrows.trans hlater, fun hworks => hfault (hworks.grows hgrows)⟩
  written output text := by
    refine ⟨output.grows_write _, fun hworks => ?_⟩
    rw [Sink.writeLine, hworks.write]
  flushed output := ⟨output.grows_flush, fun hworks => by rw [hworks.flush]⟩
  cutOff_leads := by
    rintro cause first second after fault ⟨hcause, hworks, hfull, hkept⟩ ⟨hgrows, _⟩
    refine ⟨hcause, hworks.grows hgrows,
      Nat.lt_of_lt_of_le hfull (Sink.size_le_of_grows hgrows), ?_⟩
    rw [hworks.keeping_of_grows hgrows (Nat.le_of_lt hfull), hkept]
  lines := by
    rintro first second text ⟨hworks, hfits, rfl⟩
    rw [Sink.writeLine, hworks.write_keeping hfits, Sink.writeLine, hworks.write]
    split
    next hroom => exact .inl ⟨rfl, hworks.taking _, hroom, rfl⟩
    next hfull => exact .inr ⟨.full, rfl, rfl, hworks.taking _, Nat.lt_of_not_le hfull, rfl⟩
  flushes := by
    rintro first second ⟨hworks, hfits, rfl⟩
    rw [hworks.flush_keeping, hworks.flush]
    exact ⟨rfl, hworks, hfits, rfl⟩
  spared := .inl rfl

end Comparison

namespace Eval

variable (limit : Option Nat) (fuel : Nat) (nodes : Program) (machine : Machine)

theorem follows_truncation (capacity : Nat) :
    (Comparison.truncation capacity).Follows id (program limit fuel nodes)
      (program limit fuel nodes) := by
  have hfollows := follows_program (.truncation capacity) limit fuel nodes
  rw [show (Comparison.truncation capacity).spare + fuel = fuel from Nat.zero_add fuel,
    show Stmt.renumberEach (Comparison.truncation capacity).line nodes = nodes from
      Stmt.renumberEach_id nodes] at hfollows
  exact hfollows

/-- Whatever statements print comes after what was printed before. -/
theorem grows_body : machine.output.Grows (body limit fuel nodes machine).2.output := by
  have hleads := ((follows (.truncation 0) limit fuel).body nodes).leads machine
  rw [show (Comparison.truncation 0).spare + fuel = fuel from Nat.zero_add fuel] at hleads
  exact hleads.1

/-- Whatever a program prints comes after what was printed before. -/
theorem grows_program :
    machine.output.Grows (program limit fuel nodes machine).2.output :=
  ((follows_truncation limit fuel nodes 0).leads machine).1

/-- If its output works, a program fails for no reason but its own. -/
theorem sinkFault?_program (h : machine.output.Works) :
    (program limit fuel nodes machine).1.sinkFault? = none :=
  ((follows_truncation limit fuel nodes 0).leads machine).2 h

/-- If the output of a program is bounded, the program does what it does when the output
takes everything, as long as that fits. Once it does not, the program ends for want of
room, with as much written as there is room for. -/
theorem program_truncated {capacity : Nat} (hworks : machine.output.Works)
    (hfits : machine.output.written.size ≤ capacity) {exit : Exit Fault Unit} {after : Machine}
    (heq : program limit fuel nodes machine = (exit, after)) :
    (after.output.written.size ≤ capacity ∧
      program limit fuel nodes { machine with output := machine.output.keeping capacity } =
        (exit, { after with output := after.output.keeping capacity })) ∨
    (capacity < after.output.written.size ∧ ∃ cut,
      program limit fuel nodes { machine with output := machine.output.keeping capacity } =
        (.fault (.sink .full), cut) ∧ cut.output = after.output.keeping capacity) := by
  have hstep : (Comparison.truncation capacity).InStep (machine.output.keeping capacity)
      machine.output := ⟨hworks, hfits, rfl⟩
  have hends := (follows_truncation limit fuel nodes capacity).ends hstep
  rw [Comparison.image_of_line rfl, heq] at hends
  revert hends
  generalize program limit fuel nodes _ = bounded
  intro hends
  cases hends with
  | @inStep _ _ output hstep =>
      obtain ⟨_, hroom, rfl⟩ := hstep
      left
      refine ⟨hroom, ?_⟩
      rw [Comparison.image_of_line rfl]
      exact congrArg (·, _) exit.map_renumber_id
  | cutOff cause hcut =>
      obtain ⟨rfl, _, hfull, hkept⟩ := hcut
      right
      exact ⟨hfull, _, rfl, hkept⟩

end Eval

end LoxLang
