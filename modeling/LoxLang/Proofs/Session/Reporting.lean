/-
# What sessions report

The syntax errors of a source are handed to the stream for them one after the other, and
the first that cannot be written is the last. A session remembers that it was handed one,
and that a program ended with a runtime error, whether or not the report came through. So
the two flags say what has happened since they were reset, on any streams and after any
calls that were cut short.

A source changes the machine only by being executed, and that takes a session without
errors and a source without errors. What the program prints is written first, and the
runtime error that it ends with, if it ends with one, is written once and last.
-/

import LoxLang.Proofs.Evaluation.Output
import LoxLang.Proofs.Grammar.Outcome
import LoxLang.Proofs.Session.Regularity

namespace LoxLang

namespace Diagnostic

/-- The line, or lines, that the diagnostic is written as. -/
def line (error : Diagnostic) : ByteArray :=
  (error.text ++ "\n").toUTF8

/-- What is written for diagnostics in order. -/
def lines : List Diagnostic → ByteArray
  | [] => ByteArray.empty
  | error :: others => error.line ++ lines others

end Diagnostic

namespace Session

variable {limit : Option Nat} {fuel : Nat} {session ready : Session} {source : String}
  {program : Program} {error : RuntimeError} {errors others : List Diagnostic}

/-! ## The errors of a source -/

/-- The errors of the scan, as they are reported. -/
def lexicalErrors (source : String) : List Diagnostic :=
  (LexError.ofScan (Token.scan source)).map LexError.diagnostic

/-- The errors that the tokens are met with, as they are reported. -/
def grammaticalErrors (source : String) : List Diagnostic :=
  (Program.errors (Program.ofTokens (Token.ofScan (Token.scan source)))).map SyntaxError.diagnostic

/-- All errors of a source in the order in which they are reported. -/
def syntaxErrors (source : String) : List Diagnostic :=
  lexicalErrors source ++ grammaticalErrors source

/-- The source is read as the program, without any error. -/
structure Accepts (source : String) (program : Program) : Prop where
  scanned : LexError.ofScan (Token.scan source) = []
  parsed : Program.ofTokens (Token.ofScan (Token.scan source)) = .ok program

theorem Accepts.lexicalErrors_eq (h : Accepts source program) : lexicalErrors source = [] := by
  rw [lexicalErrors, h.scanned, List.map_nil]

theorem Accepts.syntaxErrors_eq (h : Accepts source program) : syntaxErrors source = [] := by
  rw [syntaxErrors, h.lexicalErrors_eq, grammaticalErrors, h.parsed]
  rfl

/-! ## Reports -/

/-- Of errors that are to be reported in order, those that are handed to the stream: up to
the first whose report fails. -/
def handed (session : Session) : List Diagnostic → List Diagnostic
  | [] => []
  | error :: others =>
    match session.report error with
    | (.value _, after) => error :: after.handed others
    | _ => [error]

theorem handed_eq_nil_iff : session.handed errors = [] ↔ errors = [] := by
  cases errors with
  | nil => exact Iff.rfl
  | cons error others =>
      rw [handed]
      split <;> exact ⟨nofun, nofun⟩

theorem reportAll_append (session : Session) (errors others : List Diagnostic) :
    session.reportAll (errors ++ others) =
      match session.reportAll errors with
      | (.value _, after) => after.reportAll others
      | stopped => stopped := by
  induction errors generalizing session with
  | nil => rfl
  | cons error errors ih =>
      rw [List.cons_append, reportAll, reportAll]
      rcases session.report error with ⟨_ | _ | _, after⟩
      · exact ih after
      · rfl
      · rfl

theorem hadError_report (session : Session) (error : Diagnostic) :
    (session.report error).2.hadError = true :=
  rfl

theorem hadRuntimeError_report (session : Session) (error : Diagnostic) :
    (session.report error).2.hadRuntimeError = session.hadRuntimeError :=
  rfl

theorem hadError_reportAll : (session.reportAll errors).2.hadError = true ↔
    session.hadError = true ∨ errors ≠ [] := by
  induction errors generalizing session with
  | nil => exact ⟨.inl, fun h => h.resolve_right fun hne => hne rfl⟩
  | cons error others ih =>
      have hreported := hadError_report session error
      have hnow : (session.reportAll (error :: others)).2.hadError = true := by
        rw [reportAll]
        split
        next after heq =>
          rw [heq] at hreported
          exact ih.mpr (.inl hreported)
        next => exact hreported
      exact ⟨fun _ => .inr (List.cons_ne_nil _ _), fun _ => hnow⟩

theorem hadRuntimeError_reportAll :
    (session.reportAll errors).2.hadRuntimeError = session.hadRuntimeError := by
  induction errors generalizing session with
  | nil => rfl
  | cons error others ih =>
      have hreported := hadRuntimeError_report session error
      rw [reportAll]
      split
      next after heq =>
        rw [heq] at hreported
        rw [ih, hreported]
      next => exact hreported

/-- The session after it reported errors to a stream that works. -/
def noting (session : Session) (errors : List Diagnostic) : Session :=
  { session with
    diagnostics := session.diagnostics.taking (Diagnostic.lines errors)
    hadError := session.hadError || !errors.isEmpty }

theorem reportAll_of_works (h : session.diagnostics.Works) :
    session.reportAll errors = (.value (), session.noting errors) := by
  induction errors generalizing session with
  | nil =>
      rw [reportAll, noting, Diagnostic.lines, Sink.taking_empty]
      simp
  | cons error others ih =>
      have hreport : session.report error =
          (.value (), { session with
            diagnostics := session.diagnostics.taking error.line
            hadError := true }) := by
        rw [report, h.report]
        rfl
      rw [reportAll, hreport]
      show reportAll _ others = _
      rw [ih (h.taking error.line), noting, noting, Diagnostic.lines, ← Sink.taking_taking]
      simp

/-! ## What a run comes to -/

/-- A source that has errors, or that meets a session with errors, is not executed. -/
theorem run_eq_reportAll (h : session.hadError = true ∨ syntaxErrors source ≠ []) :
    session.run limit fuel source = session.reportAll (syntaxErrors source) := by
  have hlexical := @hadError_reportAll session (lexicalErrors source)
  rw [syntaxErrors] at h
  rw [syntaxErrors, reportAll_append, run]
  show (match session.reportAll (lexicalErrors source) with
    | (.value _, ready) => _
    | stopped => stopped) = _
  rcases hreported : session.reportAll (lexicalErrors source) with ⟨_ | _ | _, ready⟩
  · rw [hreported] at hlexical
    rw [grammaticalErrors] at h ⊢
    cases hparsed : Program.ofTokens (Token.ofScan (Token.scan source)) with
    | error errors => simp only [Program.errors]
    | ok program =>
        rw [hparsed, Program.errors, List.map_nil, List.append_nil, ← hlexical] at h
        simp only [Program.errors, List.map_nil, reportAll, if_pos h]
  · rfl
  · rfl

/-- A session without errors executes a source without errors. -/
theorem Accepts.run_eq (h : Accepts source program) (hclean : session.hadError = false) :
    session.run limit fuel source = session.execute limit fuel program := by
  have hreported : session.reportAll (lexicalErrors source) = (.value (), session) := by
    rw [h.lexicalErrors_eq, reportAll]
  exact Interprets.run_eq ⟨hreported, h.parsed, hclean⟩

theorem syntaxErrors_eq_nil_iff : syntaxErrors source = [] ↔ ∃ program, Accepts source program := by
  constructor
  · intro h
    obtain ⟨hlexical, hgrammatical⟩ := List.append_eq_nil_iff.mp h
    have herrors := List.map_eq_nil_iff.mp hgrammatical
    rw [Program.errors_ofTokens] at herrors
    exact ⟨_, List.map_eq_nil_iff.mp hlexical,
      Program.ofTokens_eq_ok_iff.mpr (Prod.ext rfl herrors)⟩
  · rintro ⟨program, h⟩
    exact h.syntaxErrors_eq

/-- Whether a source is executed depends on nothing but whether there were errors before
and whether there are errors in it. -/
theorem clean_or_not (session : Session) (source : String) :
    (session.hadError = false ∧ ∃ program, Accepts source program) ∨
      (session.hadError = true ∨ syntaxErrors source ≠ []) := by
  cases hclean : session.hadError with
  | true => exact .inr (.inl rfl)
  | false =>
      by_cases herrors : syntaxErrors source = []
      · exact .inl ⟨rfl, syntaxErrors_eq_nil_iff.mp herrors⟩
      · exact .inr (.inr herrors)

theorem interprets_iff : session.Interprets source program ready ↔
    ready = session ∧ session.hadError = false ∧ Accepts source program := by
  constructor
  · rintro ⟨hreported, hparsed, hclean⟩
    have hlexical := @hadError_reportAll session (lexicalErrors source)
    replace hreported : session.reportAll (lexicalErrors source) = (.value (), ready) := hreported
    rw [hreported, hclean] at hlexical
    obtain ⟨hbefore, herrors⟩ := not_or.mp fun h => Bool.false_ne_true (hlexical.mpr h)
    replace herrors := Classical.not_not.mp herrors
    rw [herrors] at hreported
    cases hreported
    exact ⟨rfl, hclean, List.map_eq_nil_iff.mp herrors, hparsed⟩
  · rintro ⟨rfl, hclean, h⟩
    refine ⟨?_, h.parsed, hclean⟩
    rw [h.scanned]
    rfl

/-- A source that is executed reports the runtime error that its program ends with. -/
theorem Accepts.reports_iff (h : Accepts source program) (hclean : session.hadError = false) :
    Reports limit fuel session source error ↔
      (Eval.program limit fuel program session.machine).1 = .fault (.program error) := by
  constructor
  · rintro ⟨other, ready, after, hinterprets, heq⟩
    obtain ⟨rfl, _, hother⟩ := interprets_iff.mp hinterprets
    obtain rfl : program = other := Except.ok.inj (h.parsed.symm.trans hother.parsed)
    rw [heq]
  · intro hexit
    exact ⟨program, session, _, interprets_iff.mpr ⟨rfl, hclean, h⟩, Prod.ext hexit rfl⟩

theorem not_reports (h : session.hadError = true ∨ syntaxErrors source ≠ []) :
    ¬ Reports limit fuel session source error := by
  rintro ⟨program, ready, after, hinterprets, _⟩
  obtain ⟨rfl, hclean, haccepts⟩ := interprets_iff.mp hinterprets
  rcases h with hbefore | herrors
  · rw [hclean] at hbefore
    cases hbefore
  · exact herrors haccepts.syntaxErrors_eq

/-- What a session makes of the end of a program that it executed. -/
def conclude (session : Session) : Exit Fault Unit × Machine → Exit SinkFault Unit × Session
  | (.value _, machine) => (.value (), { session with machine := machine })
  | (.outOfFuel, machine) => (.outOfFuel, { session with machine := machine })
  | (.fault (.sink fault), machine) => (.fault fault, { session with machine := machine })
  | (.fault (.program error), machine) =>
    { session with machine := machine }.reportRuntime error.diagnostic

theorem execute_eq : session.execute limit fuel program =
    session.conclude (Eval.program limit fuel program session.machine) := by
  rw [execute]
  rcases Eval.program limit fuel program session.machine with ⟨_ | (_ | _) | _, after⟩ <;> rfl

theorem ofFault?_ne_outOfFuel (fault : Option SinkFault) : Exit.ofFault? fault ≠ .outOfFuel := by
  cases fault <;> nofun

theorem conclude_eq_outOfFuel_iff {exit : Exit Fault Unit} {after : Machine} :
    (session.conclude (exit, after)).1 = .outOfFuel ↔ exit = .outOfFuel := by
  rcases exit with _ | (error | _) | _
  · constructor <;> intro h <;> cases h
  · constructor
    · intro h
      exact absurd h (ofFault?_ne_outOfFuel _)
    · intro h
      cases h
  · constructor <;> intro h <;> cases h
  · exact ⟨fun _ => rfl, fun _ => rfl⟩

/-- A program that ends normally leaves its machine, and nothing else is changed. -/
theorem Accepts.run_of_value (h : Accepts source program) (hclean : session.hadError = false)
    {after : Machine}
    (hprogram : Eval.program limit fuel program session.machine = (.value (), after)) :
    session.run limit fuel source = (.value (), { session with machine := after }) := by
  rw [h.run_eq hclean, execute_eq, hprogram, conclude]

/-! ## What is remembered -/

theorem hadError_conclude (outcome : Exit Fault Unit × Machine) :
    (session.conclude outcome).2.hadError = session.hadError := by
  obtain ⟨_ | (error | _) | _, after⟩ := outcome <;> rfl

theorem hadRuntimeError_conclude (exit : Exit Fault Unit) (after : Machine) :
    (session.conclude (exit, after)).2.hadRuntimeError = true ↔
      session.hadRuntimeError = true ∨ ∃ error, exit = .fault (.program error) := by
  rcases exit with _ | (error | _) | _
  · simp [conclude]
  · have hreported :
        (session.conclude (.fault (.program error), after)).2.hadRuntimeError = true := rfl
    simp [hreported]
  · simp [conclude]
  · simp [conclude]

/-- After a run an error is remembered if one was before or the source has one. -/
theorem hadError_run : (session.run limit fuel source).2.hadError = true ↔
    session.hadError = true ∨ syntaxErrors source ≠ [] := by
  rcases clean_or_not session source with ⟨hclean, program, haccepts⟩ | h
  · rw [haccepts.run_eq hclean, execute_eq, hadError_conclude, haccepts.syntaxErrors_eq]
    simp
  · rw [run_eq_reportAll h, hadError_reportAll]

/-- After a run a runtime error is remembered if one was before or the program ended in
one. -/
theorem hadRuntimeError_run : (session.run limit fuel source).2.hadRuntimeError = true ↔
    session.hadRuntimeError = true ∨ ∃ error, Reports limit fuel session source error := by
  rcases clean_or_not session source with ⟨hclean, program, haccepts⟩ | h
  · simp only [haccepts.reports_iff hclean]
    rw [haccepts.run_eq hclean, execute_eq]
    exact hadRuntimeError_conclude _ _
  · rw [run_eq_reportAll h, hadRuntimeError_reportAll]
    simp only [not_reports h, exists_false, or_false]

/-! ## Histories -/

/-- A session at some time, with the syntax errors that were handed to it to report and
the runtime errors that programs ended in, both since it was started or last reset. In
between time goes by, and the streams may be used by others or exchanged. -/
inductive History (limit : Option Nat) : Session → List Diagnostic → List RuntimeError → Prop
  | start {clock : Clock} {output diagnostics : Sink} :
      History limit (start clock output diagnostics) [] []
  | run {session : Session} {reported : List Diagnostic} {raised : List RuntimeError} {fuel : Nat}
      {source : String} {ended : Option RuntimeError} :
      History limit session reported raised →
      (∀ error, error ∈ ended ↔ Reports limit fuel session source error) →
      History limit (session.run limit fuel source).2
        (reported ++ session.handed (syntaxErrors source)) (raised ++ ended.toList)
  | tokenize {session : Session} {reported : List Diagnostic} {raised : List RuntimeError}
      {source : String} :
      History limit session reported raised →
      History limit (session.tokenize source).2
        (reported ++ session.handed (lexicalErrors source)) raised
  | reset {session : Session} {reported : List Diagnostic} {raised : List RuntimeError} :
      History limit session reported raised → History limit session.reset [] []
  | elapsed {session : Session} {reported : List Diagnostic} {raised : List RuntimeError}
      {clock : Clock} {output diagnostics : Sink} :
      History limit session reported raised →
      History limit
        { session with
          machine := { session.machine with clock := clock, output := output }
          diagnostics := diagnostics }
        reported raised

theorem Reports.unique {other : RuntimeError} (h : Reports limit fuel session source error)
    (hother : Reports limit fuel session source other) : error = other := by
  rcases clean_or_not session source with ⟨hclean, program, haccepts⟩ | hnot
  · rw [haccepts.reports_iff hclean] at h hother
    cases h.symm.trans hother
    rfl
  · exact absurd h (not_reports hnot)

/-- Every session has a history. -/
theorem Reachable.history (h : Reachable limit session) :
    ∃ reported raised, History limit session reported raised := by
  induction h with
  | start => exact ⟨_, _, .start⟩
  | @run session fuel source _ ih =>
      obtain ⟨reported, raised, hhistory⟩ := ih
      by_cases hraises : ∃ error, Reports limit fuel session source error
      · obtain ⟨error, hreports⟩ := hraises
        have hended (other : RuntimeError) :
            other ∈ some error ↔ Reports limit fuel session source other := by
          rw [Option.mem_some]
          constructor
          · rintro rfl
            exact hreports
          · exact hreports.unique
        exact ⟨_, _, hhistory.run hended⟩
      · have hended (other : RuntimeError) :
            other ∈ none ↔ Reports limit fuel session source other :=
          ⟨nofun, fun hreports => absurd ⟨other, hreports⟩ hraises⟩
        exact ⟨_, _, hhistory.run hended⟩
  | tokenize _ ih =>
      obtain ⟨reported, raised, hhistory⟩ := ih
      exact ⟨_, _, hhistory.tokenize⟩
  | reset _ ih =>
      obtain ⟨reported, raised, hhistory⟩ := ih
      exact ⟨_, _, hhistory.reset⟩
  | elapsed _ ih =>
      obtain ⟨reported, raised, hhistory⟩ := ih
      exact ⟨_, _, hhistory.elapsed⟩

theorem tokenize_eq (session : Session) (source : String) :
    (session.tokenize source).2 = (session.reportAll (lexicalErrors source)).2 := by
  rw [tokenize]
  split <;> next heq => exact (congrArg Prod.snd heq).symm

theorem append_handed_ne_nil {reported : List Diagnostic} :
    reported ++ session.handed errors ≠ [] ↔ reported ≠ [] ∨ errors ≠ [] := by
  simp only [ne_eq, List.append_eq_nil_iff, handed_eq_nil_iff]
  exact Decidable.not_and_iff_not_or_not

/-- The flags say what has happened since they were reset. -/
theorem History.flags {reported : List Diagnostic} {raised : List RuntimeError}
    (h : History limit session reported raised) :
    (session.hadError = true ↔ reported ≠ []) ∧
      (session.hadRuntimeError = true ↔ raised ≠ []) := by
  induction h with
  | start => exact ⟨by simp [Session.start], by simp [Session.start]⟩
  | @run session reported raised fuel source ended _ hended ih =>
      obtain ⟨hreported, hraised⟩ := ih
      constructor
      · rw [hadError_run, hreported, append_handed_ne_nil]
      · rw [hadRuntimeError_run, hraised]
        simp only [← hended]
        cases ended <;> simp
  | @tokenize session reported raised source _ ih =>
      obtain ⟨hreported, hraised⟩ := ih
      constructor
      · rw [tokenize_eq, hadError_reportAll, hreported, append_handed_ne_nil]
      · rw [tokenize_eq, hadRuntimeError_reportAll, hraised]
  | reset => exact ⟨by simp [Session.reset], by simp [Session.reset]⟩
  | elapsed _ ih => exact ih

/-! ## What is written -/

/-- The report of the error that a program ended with, if it ended with one. -/
def reportOf : Exit Fault Unit → ByteArray
  | .fault (.program error) => error.diagnostic.line
  | _ => ByteArray.empty

theorem reportRuntime_of_works (h : session.machine.output.Works) (error : Diagnostic) :
    session.reportRuntime error =
      (.value (), session.afterRuntimeError (session.machine.output.taking error.line)) := by
  rw [reportRuntime, h.report]
  rfl

/-- If the output works, the end of a program is reported on it, and that is no failure. -/
theorem conclude_of_works (session : Session) {exit : Exit Fault Unit} {after : Machine}
    (h : after.output.Works) (hfault : exit.sinkFault? = none) :
    (session.conclude (exit, after)).2.machine =
        { after with output := after.output.taking (reportOf exit) } ∧
      ((session.conclude (exit, after)).1 ≠ .outOfFuel →
        (session.conclude (exit, after)).1 = .value ()) := by
  have hsilent : { after with output := after.output.taking ByteArray.empty } = after := by
    rw [Sink.taking_empty]
  rcases exit with _ | (error | fault) | _
  · exact ⟨hsilent.symm, fun _ => rfl⟩
  · have hreported : Session.reportRuntime { session with machine := after } error.diagnostic = _ :=
      reportRuntime_of_works h error.diagnostic
    rw [conclude, hreported]
    exact ⟨rfl, fun _ => rfl⟩
  · cases hfault
  · exact ⟨hsilent.symm, fun h => absurd rfl h⟩

theorem diagnostics_conclude (outcome : Exit Fault Unit × Machine) :
    (session.conclude outcome).2.diagnostics = session.diagnostics := by
  obtain ⟨_ | (error | _) | _, after⟩ := outcome <;> rfl

/-- If both streams work, a run that ends does not fail, and what it writes is added to the
output. -/
theorem run_of_works (hdiagnostics : session.diagnostics.Works)
    (hworks : session.machine.output.Works) :
    ((session.run limit fuel source).1 ≠ .outOfFuel →
      (session.run limit fuel source).1 = .value ()) ∧
    session.machine.output.Grows (session.run limit fuel source).2.machine.output := by
  rcases clean_or_not session source with ⟨hclean, program, haccepts⟩ | h
  · have hgrows := Eval.grows_program limit fuel program session.machine
    have hfault := Eval.sinkFault?_program limit fuel program session.machine hworks
    obtain ⟨hmachine, hends⟩ := conclude_of_works session (hworks.grows hgrows) hfault
    rw [haccepts.run_eq hclean, execute_eq]
    refine ⟨hends, hgrows.trans ?_⟩
    rw [hmachine]
    exact Sink.grows_taking _ _
  · rw [run_eq_reportAll h, reportAll_of_works hdiagnostics]
    exact ⟨fun _ => rfl, .refl _⟩

/-- Sessions report faithfully. The flags tell whether a syntax error was handed to the
stream and whether a program ended in a runtime error since they were last reset, on any
streams. A scan does not touch the machine, and a run only if there was no error before
and the source has none. On a stream that works a run writes all errors of the source in
order, each on a line of its own, and nothing else. If both streams work, a run that ends
does not fail, and a runtime error is written once, after all that the program printed. -/
theorem reports_faithfully (limit : Option Nat) :
    (∀ (session : Session) reported raised, History limit session reported raised →
      (session.hadError = true ↔ reported ≠ []) ∧
      (session.hadRuntimeError = true ↔ raised ≠ [])) ∧
    (∀ (session : Session) source, (session.tokenize source).2.machine = session.machine) ∧
    (∀ fuel (session : Session) source,
      (session.run limit fuel source).2.machine ≠ session.machine →
        session.hadError = false ∧ syntaxErrors source = []) ∧
    (∀ fuel (session : Session) source, session.diagnostics.Works →
      (session.run limit fuel source).2.diagnostics =
        session.diagnostics.taking (Diagnostic.lines (syntaxErrors source))) ∧
    (∀ fuel (session : Session) source, session.diagnostics.Works → session.machine.output.Works →
      ((session.run limit fuel source).1 ≠ .outOfFuel →
        (session.run limit fuel source).1 = .value ()) ∧
      ∀ program exit after, session.hadError = false → Accepts source program →
        Eval.program limit fuel program session.machine = (exit, after) →
        ∃ printed, after.output = session.machine.output.taking printed ∧
          (session.run limit fuel source).2.machine.output =
            session.machine.output.taking (printed ++ reportOf exit)) := by
  refine ⟨fun session reported raised => History.flags, ?scan, ?gate, ?errors, ?output⟩
  case scan =>
    intro session source
    rw [tokenize_eq, machine_reportAll]
  case gate =>
    intro fuel session source hchanged
    rcases clean_or_not session source with ⟨hclean, program, haccepts⟩ | h
    · exact ⟨hclean, haccepts.syntaxErrors_eq⟩
    · rw [run_eq_reportAll h, machine_reportAll] at hchanged
      exact absurd rfl hchanged
  case errors =>
    intro fuel session source hworks
    rcases clean_or_not session source with ⟨hclean, program, haccepts⟩ | h
    · rw [haccepts.run_eq hclean, execute_eq, diagnostics_conclude, haccepts.syntaxErrors_eq]
      exact (Sink.taking_empty _).symm
    · rw [run_eq_reportAll h, reportAll_of_works hworks]
      rfl
  case output =>
    intro fuel session source hworks hprints
    refine ⟨(run_of_works hworks hprints).1, ?_⟩
    intro program exit after hclean haccepts heq
    have hgrows := Eval.grows_program limit fuel program session.machine
    have hfault := Eval.sinkFault?_program limit fuel program session.machine hprints
    rw [heq] at hgrows hfault
    have hconcluded := (conclude_of_works session (hprints.grows hgrows) hfault).1
    obtain ⟨printed, hprinted⟩ := hprints.eq_taking hgrows
    replace hprinted : after.output = session.machine.output.taking printed := hprinted
    refine ⟨printed, hprinted, ?_⟩
    rw [haccepts.run_eq hclean, execute_eq, heq, hconcluded, ← Sink.taking_taking, ← hprinted]

/-- An error that a scan finds is remembered. A run of a program that prints and then adds
what cannot be added succeeds, and writes the error after what the program printed. -/
theorem reports_faithfully_start :
    ((start (.ticking 0) .unlimited .unlimited).tokenize "%").2.hadError = true ∧
    ((start (.ticking 0) .unlimited .unlimited).run (some maxCallDepth) 9 "print nil;nil+nil;").1 =
      .value () ∧
    ∃ printed,
      ((start (.ticking 0) .unlimited .unlimited).run (some maxCallDepth) 9
          "print nil;nil+nil;").2.machine.output =
        Sink.unlimited.taking
          (printed ++ (RuntimeError.diagnostic ⟨.operandsNotAddable, 1⟩).line) := by
  obtain ⟨hflags, _, _, _, houtput⟩ := reports_faithfully (some maxCallDepth)
  obtain ⟨hends, hwrites⟩ :=
    houtput 9 (start (.ticking 0) .unlimited .unlimited) "print nil;nil+nil;"
    Sink.works_unlimited Sink.works_unlimited
  have hlexical : lexicalErrors "%" ≠ [] := by decide +kernel
  have haccepts : Accepts "print nil;nil+nil;"
      [.print (.literal .nil),
        .expression (.binary (.literal .nil) ⟨.plus, "+", none, 1⟩ (.literal .nil))] :=
    ⟨by cbv, by cbv⟩
  obtain ⟨after, hafter⟩ : ∃ after, Eval.program (some maxCallDepth) 9
      [.print (.literal .nil),
        .expression (.binary (.literal .nil) ⟨.plus, "+", none, 1⟩ (.literal .nil))]
      (.start (.ticking 0) .unlimited) = (.fault (.program ⟨.operandsNotAddable, 1⟩), after) :=
    ⟨_, rfl⟩
  obtain ⟨printed, _, hwritten⟩ := hwrites _ _ after rfl haccepts hafter
  refine ⟨?_, hends ?_, printed, hwritten⟩
  · exact (hflags _ _ _ (.tokenize .start)).1.mpr (append_handed_ne_nil.mpr (.inr hlexical))
  · rw [haccepts.run_eq rfl, execute_eq]
    show (conclude _ (Eval.program _ _ _ (.start (.ticking 0) .unlimited))).1 ≠ _
    rw [hafter, ne_eq, conclude_eq_outOfFuel_iff]
    simp

end Session

end LoxLang
