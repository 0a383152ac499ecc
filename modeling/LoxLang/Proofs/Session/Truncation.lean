/-
# Runs with little room for output

A run whose output fills up is the run with an output that takes everything, cut off. It
has written the first of the same bytes, as many as there is room for. If that is all of
them, nothing else is different; if not, the run fails, but the scopes are put back as
they are after any other end.

The cut may be in the middle of what the program prints or of the report of the error
that it ends with.
-/

import LoxLang.Proofs.Evaluation.Restoration
import LoxLang.Proofs.Session.Reporting

namespace LoxLang

/-- The sink with room for so many bytes more. -/
def Sink.confined (sink : Sink) (room : Nat) : Sink :=
  { sink with capacity := some (sink.written.size + room) }

theorem Sink.confined_eq_keeping (sink : Sink) (room : Nat) :
    sink.confined room = sink.keeping (sink.written.size + room) := by
  rw [keeping, extract_of_size_le (Nat.le_add_right _ _), confined]

namespace Session

variable {limit : Option Nat} {fuel : Nat} {session : Session} {source : String}
  {capacity : Nat} {exit : Exit Fault Unit} {after : Machine}

/-- The session with its output exchanged. -/
def withOutput (session : Session) (output : Sink) : Session :=
  { session with machine := { session.machine with output := output } }

/-- The first is what the second comes to if its output has no more than the given
capacity. -/
structure Truncates (capacity : Nat) (first second : Exit SinkFault Unit × Session) : Prop where
  output : first.2.machine.output = second.2.machine.output.keeping capacity
  whole : second.2.machine.output.written.size ≤ capacity →
    first.1 = second.1 ∧ first.2 = second.2.withOutput first.2.machine.output
  cut : capacity < second.2.machine.output.written.size → first.1 = .fault .full

/-- The report of a runtime error may be too long for the room that is left. -/
theorem truncates_reportRuntime (session : Session) (hworks : session.machine.output.Works)
    (hfits : session.machine.output.written.size ≤ capacity) (error : Diagnostic) :
    Truncates capacity
      ((session.withOutput (session.machine.output.keeping capacity)).reportRuntime error)
      (session.reportRuntime error) := by
  have houtput : (session.withOutput (session.machine.output.keeping capacity)).machine.output =
      session.machine.output.keeping capacity := rfl
  have hreport : (session.machine.output.keeping capacity).report error.text =
      (if (session.machine.output.taking error.line).written.size ≤ capacity then none
        else some .full, (session.machine.output.taking error.line).keeping capacity) :=
    hworks.report_keeping hfits error.text
  rw [reportRuntime_of_works hworks, reportRuntime, houtput, hreport]
  refine ⟨rfl, fun hroom => ?whole, fun hfull => ?cut⟩
  case whole =>
    refine ⟨?_, rfl⟩
    rw [if_pos (show (session.machine.output.taking error.line).written.size ≤ capacity from hroom)]
    rfl
  case cut =>
    rw [if_neg (show ¬ (session.machine.output.taking error.line).written.size ≤ capacity from
      Nat.not_le_of_lt hfull)]
    rfl

/-- A program that was not cut off may still end in an error for whose report there is not
enough room. -/
theorem truncates_conclude (hworks : after.output.Works) (hfault : exit.sinkFault? = none)
    (hfits : after.output.written.size ≤ capacity) :
    Truncates capacity
      (session.conclude (exit, { after with output := after.output.keeping capacity }))
      (session.conclude (exit, after)) := by
  have hnot (h : capacity < after.output.written.size) : False := Nat.not_lt_of_le hfits h
  rcases exit with _ | (error | fault) | _
  · exact ⟨rfl, fun _ => ⟨rfl, rfl⟩, fun h => (hnot h).elim⟩
  · exact truncates_reportRuntime { session with machine := after } hworks hfits error.diagnostic
  · cases hfault
  · exact ⟨rfl, fun _ => ⟨rfl, rfl⟩, fun h => (hnot h).elim⟩

/-- What is still to be written after a program was cut off makes no difference. -/
theorem truncates_conclude_cut (hworks : after.output.Works) (hfault : exit.sinkFault? = none)
    (hfull : capacity < after.output.written.size) {cut : Machine}
    (hcut : cut.output = after.output.keeping capacity) :
    Truncates capacity (session.conclude (.fault (.sink .full), cut))
      (session.conclude (exit, after)) := by
  have hmachine := (conclude_of_works session hworks hfault).1
  have hgrows : after.output.Grows (session.conclude (exit, after)).2.machine.output :=
    (congrArg Machine.output hmachine).symm ▸ Sink.grows_taking _ _
  have hlonger := Nat.lt_of_lt_of_le hfull (Sink.size_le_of_grows hgrows)
  refine ⟨?_, fun h => absurd hlonger (Nat.not_lt_of_le h), fun _ => rfl⟩
  rw [hworks.keeping_of_grows hgrows (Nat.le_of_lt hfull), ← hcut]
  rfl

theorem truncates_run (hdiagnostics : session.diagnostics.Works)
    (hworks : session.machine.output.Works)
    (hfits : session.machine.output.written.size ≤ capacity) :
    Truncates capacity
      ((session.withOutput (session.machine.output.keeping capacity)).run limit fuel source)
      (session.run limit fuel source) := by
  rcases clean_or_not session source with ⟨hclean, program, haccepts⟩ | h
  · have hcleanly : (session.withOutput (session.machine.output.keeping capacity)).hadError =
        false := hclean
    rcases heq : Eval.program limit fuel program session.machine with ⟨exit, after⟩
    have hgrown := hworks.grows (Eval.grows_program limit fuel program session.machine)
    have hfault := Eval.sinkFault?_program limit fuel program session.machine hworks
    rw [heq] at hgrown hfault
    rw [haccepts.run_eq hclean, haccepts.run_eq hcleanly, execute_eq, execute_eq, heq]
    rcases Eval.program_truncated limit fuel program session.machine hworks hfits heq with
      ⟨hroom, hbounded⟩ | ⟨hfull, cut, hbounded, hcut⟩
    · rw [withOutput, hbounded]
      exact truncates_conclude hgrown hfault hroom
    · rw [withOutput, hbounded]
      exact truncates_conclude_cut hgrown hfault hfull hcut
  · have hbounded : (session.withOutput (session.machine.output.keeping capacity)).hadError = true ∨
        syntaxErrors source ≠ [] := h
    have hworking : (session.withOutput
        (session.machine.output.keeping capacity)).diagnostics.Works := hdiagnostics
    rw [run_eq_reportAll h, run_eq_reportAll hbounded, reportAll_of_works hdiagnostics,
      reportAll_of_works hworking]
    exact ⟨rfl, fun _ => ⟨rfl, rfl⟩, fun hfull => absurd hfits (Nat.not_le_of_lt hfull)⟩

theorem restored_run (limit : Option Nat) (fuel : Nat) (session : Session) (source : String) :
    session.machine.Restored (session.run limit fuel source).2.machine := by
  rcases clean_or_not session source with ⟨hclean, program, haccepts⟩ | h
  · have hrestored :=
      (Machine.restoration.keeps_program limit fuel program session.machine trivial).2.1
    have hconcluded (outcome : Exit Fault Unit × Machine) :
        outcome.2.Restored (session.conclude outcome).2.machine := by
      obtain ⟨_ | (error | _) | _, after⟩ := outcome
      · exact .refl after
      · exact ⟨rfl, rfl, rfl, fun _ => rfl⟩
      · exact .refl after
      · exact .refl after
    rw [haccepts.run_eq hclean, execute_eq]
    exact Machine.Restored.trans hrestored (hconcluded _)
  · rw [run_eq_reportAll h, machine_reportAll]
    exact .refl session.machine

/-- A full output only truncates. If a run ends whose output takes everything, so does the
same run with room for `room` bytes: of the bytes that the first has written it has
written the first ones, as many as there was room for. It fails if and only if that is not
all of them. If it is, it ends in the same way and leaves the same session; if it is not,
then it leaves the scopes and the calls as they were. -/
theorem run_truncated (limit : Option Nat) (fuel : Nat) (session : Session) (source : String)
    (room : Nat) (hdiagnostics : session.diagnostics.Works)
    (hworks : session.machine.output.Works) {exit : Exit SinkFault Unit} {after : Session}
    (hrun : session.run limit fuel source = (exit, after)) (hends : exit ≠ .outOfFuel) :
    ∃ bytes cut final, after.machine.output = session.machine.output.taking bytes ∧
      (session.withOutput (session.machine.output.confined room)).run limit fuel source =
        (cut, final) ∧
      final.machine.output =
        (session.machine.output.confined room).taking (bytes.extract 0 (min room bytes.size)) ∧
      cut ≠ .outOfFuel ∧ ((∃ fault, cut = .fault fault) ↔ room < bytes.size) ∧
      (bytes.size ≤ room → cut = exit ∧ final = after.withOutput final.machine.output) ∧
      (room < bytes.size →
        final.machine.current = session.machine.current ∧
        final.machine.callDepth = session.machine.callDepth ∧
        final.machine.environment.depth = session.machine.environment.depth) := by
  have hworking :
      _ ∧ session.machine.output.Grows (session.run limit fuel source).2.machine.output :=
    run_of_works hdiagnostics hworks
  rw [hrun] at hworking
  obtain ⟨hvalue, hgrown⟩ := hworking
  obtain ⟨bytes, hbytes⟩ := hworks.eq_taking hgrown
  replace hvalue : exit = .value () := hvalue hends
  replace hbytes : after.machine.output = session.machine.output.taking bytes := hbytes
  rcases hbounded :
      (session.withOutput (session.machine.output.confined room)).run limit fuel source
    with ⟨cut, final⟩
  have htruncates : Truncates (session.machine.output.written.size + room) (cut, final)
      (exit, after) := by
    rw [← hbounded, ← hrun, Sink.confined_eq_keeping]
    exact truncates_run hdiagnostics hworks (Nat.le_add_right _ _)
  have hsize :
      after.machine.output.written.size = session.machine.output.written.size + bytes.size := by
    rw [hbytes, Sink.taking, ByteArray.size_append]
  have hrestored : session.machine.Restored final.machine := by
    have hsame := restored_run limit fuel
      (session.withOutput (session.machine.output.confined room)) source
    rw [hbounded] at hsame
    exact ⟨hsame.current, hsame.callDepth, hsame.depth, hsame.enclosing⟩
  have hwhole (hroom : bytes.size ≤ room) :
      cut = exit ∧ final = after.withOutput final.machine.output := by
    apply htruncates.whole
    show after.machine.output.written.size ≤ _
    omega
  have hcut (hfull : room < bytes.size) : cut = .fault .full := by
    apply htruncates.cut
    show _ < after.machine.output.written.size
    omega
  refine ⟨bytes, cut, final, hbytes, rfl, ?output, ?ends, ?fails, hwhole, fun _ => ?scopes⟩
  case output =>
    have houtput : final.machine.output =
        after.machine.output.keeping (session.machine.output.written.size + room) :=
      htruncates.output
    rw [houtput, hbytes, Sink.keeping_taking, Sink.confined_eq_keeping, Sink.extract_min]
  case ends =>
    by_cases hroom : bytes.size ≤ room
    · rw [(hwhole hroom).1]
      exact hends
    · rw [hcut (Nat.lt_of_not_le hroom)]
      simp
  case fails =>
    constructor
    · rintro ⟨fault, hfault⟩
      apply Nat.lt_of_not_le
      intro hroom
      rw [(hwhole hroom).1, hvalue] at hfault
      cases hfault
    · intro hfull
      exact ⟨.full, hcut hfull⟩
  case scopes => exact ⟨hrestored.current, hrestored.callDepth, hrestored.depth⟩

/-- There is room for two of the four bytes that the program prints. -/
theorem run_truncated_print :
    ∃ (bytes : ByteArray) (cut : Exit SinkFault Unit) (final : Session),
      ((start (.ticking 0) .unlimited .unlimited).withOutput (Sink.unlimited.confined 2)).run
        (some maxCallDepth) 3 "print nil;" = (cut, final) ∧
      final.machine.output =
        (Sink.unlimited.confined 2).taking (bytes.extract 0 (min 2 bytes.size)) ∧
      ((∃ fault, cut = .fault fault) ↔ 2 < bytes.size) := by
  have haccepts : Accepts "print nil;" [.print (.literal .nil)] := ⟨by cbv, by cbv⟩
  obtain ⟨after, hafter⟩ : ∃ after, Eval.program (some maxCallDepth) 3 [.print (.literal .nil)]
      (.start (.ticking 0) .unlimited) = (.value (), after) := ⟨_, rfl⟩
  have hrun : (start (.ticking 0) .unlimited .unlimited).run (some maxCallDepth) 3 "print nil;" =
      (.value (), { start (.ticking 0) .unlimited .unlimited with machine := after }) :=
    haccepts.run_of_value rfl hafter
  obtain ⟨bytes, cut, final, _, hcut, houtput, _, hfails, _⟩ := run_truncated (some maxCallDepth) 3
    (start (.ticking 0) .unlimited .unlimited) "print nil;" 2 Sink.works_unlimited
      Sink.works_unlimited hrun (by simp)
  exact ⟨bytes, cut, final, hcut, houtput, hfails⟩

end Session

end LoxLang
