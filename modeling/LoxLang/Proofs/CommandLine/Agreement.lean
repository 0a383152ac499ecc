/-
# The commands agree on a source

Listing, outlining and running a file each scan it anew, and the last two read what was
scanned anew. They find the same errors in it, in the same order, and write the same lines
for them: those of the scan if the file is only listed, all of them otherwise. A file that
is outlined is one that is run.

What each command reports of a source is told here by its errors and by the program that
it is read as. That the commands agree is read off that.
-/

import LoxLang.CommandLine.Report
import LoxLang.Proofs.Session.Reporting

namespace LoxLang.CommandLine

namespace Report

open Session

variable {limit : Option Nat} {fuel : Nat} {clock : Clock} {source : String} {json : Bool}
  {program : Program} {exit : Exit Fault Unit} {after : Machine}

/-! ## Lines -/

theorem lines_append (texts others : List String) :
    lines (texts ++ others) = lines texts ++ lines others := by
  rw [lines, lines, lines, List.map_append, String.join_append]
  exact String.toByteArray_append

theorem lines_texts (errors : List Diagnostic) :
    lines (errors.map Diagnostic.text) = Diagnostic.lines errors := by
  induction errors with
  | nil => rfl
  | cons error others ih =>
      rw [Diagnostic.lines, ← ih]
      exact lines_append [error.text] (others.map Diagnostic.text)

theorem lines_cons (error : Diagnostic) (others : List Diagnostic) :
    Diagnostic.lines (error :: others) ≠ ByteArray.empty := by
  have hline : error.line ≠ ByteArray.empty := by
    intro hempty
    have hsize := congrArg ByteArray.size hempty
    rw [Diagnostic.line, String.toUTF8_eq_toByteArray, String.toByteArray_append,
      ByteArray.size_append] at hsize
    exact absurd hsize (Nat.ne_of_gt (Nat.lt_add_left _ Nat.zero_lt_one))
  intro hempty
  exact hline (ByteArray.append_eq_empty_iff.mp hempty).1

/-- Whatever is reported leaves something written. -/
theorem lines_eq_empty_iff {errors : List Diagnostic} :
    Diagnostic.lines errors = ByteArray.empty ↔ errors = [] := by
  cases errors with
  | nil => exact ⟨fun _ => rfl, fun _ => rfl⟩
  | cons error others => exact ⟨fun h => absurd h (lines_cons error others), nofun⟩

theorem diagnosticLines_append (errors others : List Diagnostic) :
    Diagnostic.lines (errors ++ others) = Diagnostic.lines errors ++ Diagnostic.lines others := by
  rw [← lines_texts, List.map_append, lines_append, lines_texts, lines_texts]

/-! ## What each command reports -/

theorem texts_lexicalErrors : (LexError.ofScan (Token.scan source)).map (·.diagnostic.text) =
    (lexicalErrors source).map Diagnostic.text := by
  rw [lexicalErrors, List.map_map]
  rfl

/-- Listing writes the errors of the scan, and the exit code tells whether there are any. -/
theorem tokenize_report (source : String) (json : Bool) :
    (tokenize source json).stderr = Diagnostic.lines (lexicalErrors source) ∧
      ((tokenize source json).code = 65 ↔ lexicalErrors source ≠ []) := by
  constructor
  · show lines _ = _
    rw [texts_lexicalErrors, lines_texts]
  · show (if (LexError.ofScan (Token.scan source)).isEmpty then 0 else syntaxErrorCode) = 65 ↔ _
    rw [lexicalErrors]
    cases LexError.ofScan (Token.scan source) with
    | nil => simp
    | cons error others => simp [syntaxErrorCode]

/-- A source with errors is not outlined. All its errors are written. -/
theorem parse_of_errors (h : syntaxErrors source ≠ []) :
    parse source json =
      ⟨65, ByteArray.empty, Diagnostic.lines (syntaxErrors source)⟩ := by
  rw [syntaxErrors, grammaticalErrors] at h ⊢
  rw [← lines_texts, List.map_append, parse, texts_lexicalErrors]
  cases hparsed : Program.ofTokens (Token.ofScan (Token.scan source)) with
  | error errors =>
      rw [Program.errors, List.map_map]
      rfl
  | ok program =>
      rw [hparsed, Program.errors, List.map_nil, List.append_nil] at h
      rw [Program.errors, List.map_nil, List.map_nil, List.append_nil]
      have hsome : ((lexicalErrors source).map Diagnostic.text).isEmpty = false := by
        simpa using h
      simp only [hsome, Bool.false_eq_true, if_false]
      rfl

/-- A source without errors is outlined, and nothing is written about it. -/
theorem parse_of_accepts (h : Accepts source program) :
    (parse source json).code = 0 ∧ (parse source json).stderr = ByteArray.empty := by
  rw [parse, h.scanned, h.parsed]
  exact ⟨rfl, rfl⟩

/-- A source with errors is not run. All its errors are written. -/
theorem run_of_errors (h : syntaxErrors source ≠ []) :
    run limit fuel clock source =
      some ⟨65, ByteArray.empty, Diagnostic.lines (syntaxErrors source)⟩ := by
  have hreported : (session clock).run limit fuel source =
      (.value (), (session clock).noting (syntaxErrors source)) := by
    rw [run_eq_reportAll (.inr h)]
    exact reportAll_of_works Sink.works_unlimited
  have hnoted : ((session clock).noting (syntaxErrors source)).hadError = true := by
    simp [noting, h]
  rw [run, hreported]
  show some (Report.mk _ _ (ByteArray.empty ++ _)) = _
  rw [exitCode, hnoted, ByteArray.empty_append]
  rfl

/-- The code of a run is settled by what it remembers, which is how its program ended. -/
theorem code_of_conclude (session : Session) (hclean : session.hadError = false)
    (hruntime : session.hadRuntimeError = false) (exit : Exit Fault Unit) (after : Machine) :
    (exitCode (session.conclude (exit, after)).2 = 70 ↔ ∃ error, exit = .fault (.program error)) ∧
      ((∀ error, exit ≠ .fault (.program error)) →
        exitCode (session.conclude (exit, after)).2 = 0) := by
  have hremembered : (session.conclude (exit, after)).2.hadRuntimeError = true ↔
      session.hadRuntimeError = true ∨ ∃ error, exit = .fault (.program error) :=
    hadRuntimeError_conclude exit after
  rw [hruntime] at hremembered
  rw [exitCode, hadError_conclude, hclean]
  cases hended : (session.conclude (exit, after)).2.hadRuntimeError with
  | true =>
      rw [hended] at hremembered
      obtain ⟨error, herror⟩ := (hremembered.mp rfl).resolve_left nofun
      exact ⟨⟨fun _ => ⟨error, herror⟩, fun _ => rfl⟩, fun hnone => absurd herror (hnone error)⟩
  | false =>
      rw [hended] at hremembered
      have hnone (h : ∃ error, exit = .fault (.program error)) : False :=
        Bool.false_ne_true (hremembered.mpr (.inr h))
      exact ⟨⟨nofun, fun h => (hnone h).elim⟩, fun _ => rfl⟩

theorem session_run_of_accepts (h : Accepts source program)
    (heq : Eval.program limit fuel program (.start clock .unlimited) = (exit, after)) :
    (session clock).run limit fuel source = (session clock).conclude (exit, after) := by
  rw [h.run_eq rfl, execute_eq]
  exact congrArg _ heq

/-- A source without errors has a report of its run if its program ends. -/
theorem exists_run_of_accepts (h : Accepts source program)
    (heq : Eval.program limit fuel program (.start clock .unlimited) = (exit, after))
    (hends : exit ≠ .outOfFuel) : ∃ report, run limit fuel clock source = some report := by
  have hconcluded : ((session clock).conclude (exit, after)).1 ≠ .outOfFuel :=
    mt conclude_eq_outOfFuel_iff.mp hends
  rw [run, session_run_of_accepts h heq]
  generalize (session clock).conclude (exit, after) = concluded at hconcluded
  obtain ⟨ended, last⟩ := concluded
  cases ended with
  | value _ => exact ⟨_, rfl⟩
  | fault _ => exact ⟨_, rfl⟩
  | outOfFuel => exact absurd rfl hconcluded

/-- A source without errors is run. Nothing is written about it but the runtime error that
its program ends with, after all that it printed. -/
theorem run_of_accepts (h : Accepts source program)
    (heq : Eval.program limit fuel program (.start clock .unlimited) = (exit, after))
    {report : Report} (hreport : run limit fuel clock source = some report) :
    report.stderr = ByteArray.empty ∧ report.stdout = after.output.written ++ Session.reportOf exit ∧
      (report.code = 70 ↔ ∃ error, exit = .fault (.program error)) ∧
      ((∀ error, exit ≠ .fault (.program error)) → report.code = 0) := by
  have hgrown := Sink.works_unlimited.grows
    (Eval.grows_program limit fuel program (.start clock .unlimited))
  have hfault := Eval.sinkFault?_program limit fuel program (.start clock .unlimited)
    Sink.works_unlimited
  rw [heq] at hgrown hfault
  have hmachine := (conclude_of_works (session clock) hgrown hfault).1
  have hdiagnostics : ((session clock).conclude (exit, after)).2.diagnostics = .unlimited :=
    diagnostics_conclude (exit, after)
  have hcode := code_of_conclude (session clock) rfl rfl exit after
  rw [run, session_run_of_accepts h heq] at hreport
  generalize (session clock).conclude (exit, after) = concluded
    at hreport hmachine hdiagnostics hcode
  obtain ⟨ended, last⟩ := concluded
  have hlast : report = ofSession (exitCode last) last := by
    cases ended <;> cases hreport <;> rfl
  rw [hlast]
  exact ⟨congrArg Sink.written hdiagnostics,
    congrArg (fun machine => machine.output.written) hmachine, hcode⟩

end Report

/-- A file that holds a text is read as it. -/
theorem readText_of_holds {read : String → Except FileFault ByteArray} {file source : String}
    (h : read file = .ok source.toUTF8) : readText read file = .ok source := by
  have hvalid : String.fromUTF8? source.toUTF8 = some source := dif_pos source.isValidUTF8
  simp only [readText, h, hvalid]

/-- Outlining a file and running it write the same to the standard error, and end with code
65 for the same files, with nothing on the standard output. Listing it writes the errors of
the scan, which the others write first, and ends with 65 if there are any. Of a file that
is outlined, the run ends with code 70 exactly if its program ends in a runtime error, which
is then what is written after all that was printed, and otherwise with 0. -/
theorem perform_agree (limit : Option Nat) (fuel : Nat) (clock : Clock)
    (read : String → Except FileFault ByteArray) (stdin : ByteArray) {file source : String}
    (hread : readText read file = .ok source) {ran : Report}
    (hran : perform limit fuel clock read stdin (.run file) = some ran) (json listJson : Bool) :
    ∃ outlined listed, perform limit fuel clock read stdin (.parse file json) = some outlined ∧
      perform limit fuel clock read stdin (.tokenize file listJson) = some listed ∧
      (outlined.stderr = ran.stderr ∧ (outlined.code = 65 ↔ ran.code = 65) ∧
        (outlined.code = 65 → outlined.stdout = ByteArray.empty ∧ ran.stdout = ByteArray.empty)) ∧
      (listed.stderr = Diagnostic.lines (Session.lexicalErrors source) ∧
        outlined.stderr =
          listed.stderr ++ Diagnostic.lines (Session.grammaticalErrors source) ∧
        (listed.code = 65 ↔ listed.stderr ≠ ByteArray.empty)) ∧
      (outlined.code = 0 → ∃ program exit after, Session.Accepts source program ∧
        Eval.program limit fuel program (.start clock .unlimited) = (exit, after) ∧
        (ran.code = 70 ↔ ∃ error, exit = .fault (.program error)) ∧
        (∀ error, exit = .fault (.program error) →
          ran.stdout = after.output.written ++ error.diagnostic.line) ∧
        ((∀ error, exit ≠ .fault (.program error)) → ran.code = 0)) := by
  simp only [perform, hread] at hran ⊢
  refine ⟨_, _, rfl, rfl, ?_⟩
  obtain ⟨hlisted, hcode⟩ := Report.tokenize_report source listJson
  have hlexical : (Report.tokenize source listJson).code = 65 ↔
      (Report.tokenize source listJson).stderr ≠ ByteArray.empty := by
    rw [hlisted, hcode, ne_eq, ne_eq, Report.lines_eq_empty_iff]
  by_cases herrors : Session.syntaxErrors source = []
  · obtain ⟨program, haccepts⟩ := Session.syntaxErrors_eq_nil_iff.mp herrors
    obtain ⟨houtlined, hsilent⟩ : (Report.parse source json).code = 0 ∧
        (Report.parse source json).stderr = ByteArray.empty := Report.parse_of_accepts haccepts
    rcases heq : Eval.program limit fuel program (.start clock .unlimited) with ⟨exit, after⟩
    obtain ⟨hstderr, hstdout, hended, hzero⟩ := Report.run_of_accepts haccepts heq hran
    have hnot : ran.code ≠ 65 := by
      intro h65
      by_cases hraised : ∃ error, exit = .fault (.program error)
      · rw [hended.mpr hraised] at h65
        cases h65
      · rw [hzero (not_exists.mp hraised)] at h65
        cases h65
    refine ⟨⟨?_, ?_, ?_⟩, ⟨hlisted, ?_, hlexical⟩, fun _ => ?_⟩
    · rw [hsilent, hstderr]
    · rw [houtlined]
      exact ⟨fun h => absurd h (by decide), fun h => absurd h hnot⟩
    · rw [houtlined]
      intro h
      cases h
    · rw [hsilent, hlisted, ← Report.diagnosticLines_append, ← Session.syntaxErrors, herrors]
      rfl
    · refine ⟨program, exit, after, haccepts, heq, hended, ?_, hzero⟩
      rintro error rfl
      exact hstdout
  · rw [Report.run_of_errors herrors] at hran
    cases hran
    rw [Report.parse_of_errors herrors]
    refine ⟨⟨rfl, Iff.rfl, fun _ => ⟨rfl, rfl⟩⟩, ⟨hlisted, ?_, hlexical⟩, ?_⟩
    · rw [hlisted, ← Report.diagnosticLines_append, ← Session.syntaxErrors]
    · intro h
      cases h

/-- A file that prints and then adds what cannot be added is outlined. Its run writes nothing
to the standard error and ends with code 70. -/
theorem perform_agree_print : ∃ outlined ran : Report,
    perform (some maxCallDepth) 9 (.ticking 0) (fun _ => .ok "print nil;nil+nil;".toUTF8)
        ByteArray.empty (.parse "f" false) = some outlined ∧
      perform (some maxCallDepth) 9 (.ticking 0) (fun _ => .ok "print nil;nil+nil;".toUTF8)
        ByteArray.empty (.run "f") = some ran ∧
      outlined.code = 0 ∧ outlined.stderr = ran.stderr ∧ ran.code = 70 := by
  have hread : readText (fun _ => .ok "print nil;nil+nil;".toUTF8) "f" =
      .ok "print nil;nil+nil;" := readText_of_holds rfl
  have haccepts : Session.Accepts "print nil;nil+nil;"
      [.print (.literal .nil),
        .expression (.binary (.literal .nil) ⟨.plus, "+", none, 1⟩ (.literal .nil))] :=
    ⟨by cbv, by cbv⟩
  obtain ⟨after, hafter⟩ : ∃ after, Eval.program (some maxCallDepth) 9
      [.print (.literal .nil),
        .expression (.binary (.literal .nil) ⟨.plus, "+", none, 1⟩ (.literal .nil))]
      (.start (.ticking 0) .unlimited) = (.fault (.program ⟨.operandsNotAddable, 1⟩), after) :=
    ⟨_, rfl⟩
  obtain ⟨ran, hran⟩ : ∃ ran, perform (some maxCallDepth) 9 (.ticking 0)
      (fun _ => .ok "print nil;nil+nil;".toUTF8) ByteArray.empty (.run "f") = some ran := by
    simp only [perform, hread]
    exact Report.exists_run_of_accepts haccepts hafter (by simp)
  obtain ⟨outlined, _, houtlined, _, ⟨hstderr, _, _⟩, _, hended⟩ :=
    perform_agree (some maxCallDepth) 9 (.ticking 0) (fun _ => .ok "print nil;nil+nil;".toUTF8)
      ByteArray.empty hread hran false false
  have hcode : outlined.code = 0 := by
    simp only [perform, hread, Option.some.injEq] at houtlined
    rw [← houtlined]
    exact (Report.parse_of_accepts haccepts).1
  obtain ⟨program, exit, last, hprogram, heq, hraised, _⟩ := hended hcode
  obtain rfl := Except.ok.inj (haccepts.parsed.symm.trans hprogram.parsed)
  cases hafter.symm.trans heq
  exact ⟨outlined, ran, houtlined, hran, hcode, hstderr, hraised.mpr ⟨_, rfl⟩⟩

end LoxLang.CommandLine
