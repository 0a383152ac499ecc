/-
# Sources run one after the other

Running one source and then another comes to the same as running a single source that
is both, with a newline between them. The second source stands further down there, and
its lines are higher by as many as come before it; nothing else is different.

A line does not tell where it comes from, so the machine is run on marks instead. A mark
tells whether the line is one of the source that is run or one of what was there before.
This makes no difference to what is done. Afterwards the marks are read as lines, and what
the two ways of running leave behind is the same machine, read in two ways.
-/

import LoxLang.Proofs.Evaluation.Sequencing
import LoxLang.Proofs.Grammar.Renumbering
import LoxLang.Proofs.Session.Reporting
import LoxLang.Proofs.Token.Joining

namespace LoxLang

/-! ## Marks -/

namespace Mark

/-- The mark of a line of what was there before. -/
def earlier (line : Nat) : Nat :=
  2 * line

/-- The mark of a line of the source that is run. -/
def own (line : Nat) : Nat :=
  2 * line + 1

/-- The line of a mark, the source that is run standing so many lines further down. -/
def read (shift : Nat) (mark : Nat) : Nat :=
  mark / 2 + mark % 2 * shift

theorem read_earlier (shift : Nat) : read shift ∘ earlier = id := by
  funext line
  have hhalf : 2 * line / 2 = line := Nat.mul_div_cancel_left line Nat.two_pos
  have heven : 2 * line % 2 = 0 := Nat.mul_mod_right 2 line
  show 2 * line / 2 + 2 * line % 2 * shift = line
  rw [hhalf, heven, Nat.zero_mul, Nat.add_zero]

theorem read_own (shift : Nat) : read shift ∘ own = (· + shift) := by
  funext line
  have hhalf : (2 * line + 1) / 2 = line := by omega
  have hodd : (2 * line + 1) % 2 = 1 := by omega
  show (2 * line + 1) / 2 + (2 * line + 1) % 2 * shift = line + shift
  rw [hhalf, hodd, Nat.one_mul]

end Mark

namespace Session

variable {limit : Option Nat} {fuel : Nat} {session middle : Session} {first second : String}
  {program other : Program} {outcome : Exit Fault Unit × Machine}

/-! ## The joined source -/

/-- Two sources without errors make one, with the second as many lines further down as
there are in the first. -/
theorem Accepts.join (hfirst : Accepts first program) (hsecond : Accepts second other) :
    Accepts (first ++ "\n" ++ second)
      (program ++ Stmt.renumberEach (· + lineAfter first.toList) other) := by
  have hclosed : ∀ error ∈ LexError.ofScan (Token.scan first),
      error.fault ≠ .unterminatedString := by
    rw [hfirst.scanned]
    exact List.forall_mem_nil _
  have hscan := Token.scan_newline hclosed second
  constructor
  · obtain ⟨line, hlast⟩ := Token.scan_eq_dropLast first
    have hbefore := hfirst.scanned
    rw [hlast, LexError.ofScan_append] at hbefore
    rw [hscan, LexError.ofScan_append, (List.append_eq_nil_iff.mp hbefore).1,
      LexError.ofScan_renumber, hsecond.scanned]
    rfl
  · rw [hscan, Token.ofScan_append, Token.ofScan_renumber, ← Token.takeWhile_ofScan]
    exact Program.ofTokens_join _ hfirst.parsed hsecond.parsed

/-! ## The two ways of running -/

theorem conclude_withMachine (session : Session) (machine : Machine)
    (outcome : Exit Fault Unit × Machine) :
    Session.conclude { session with machine := machine } outcome = session.conclude outcome := by
  obtain ⟨_ | (_ | _) | _, after⟩ := outcome <;> rfl

/-- A run that ends, on streams that work and with no runtime error, ends the program
normally. -/
theorem Accepts.run_ends (h : Accepts first program) (hclean : session.hadError = false)
    (hworks : session.machine.output.Works) {exit : Exit SinkFault Unit}
    (hrun : session.run limit fuel first = (exit, middle)) (hends : exit ≠ .outOfFuel)
    (hquiet : ∀ error, ¬ Reports limit fuel session first error) :
    ∃ after, Eval.program limit fuel program session.machine = (.value (), after) ∧
      middle = { session with machine := after } := by
  have hfault := Eval.sinkFault?_program limit fuel program session.machine hworks
  simp only [h.reports_iff hclean] at hquiet
  rw [h.run_eq hclean, execute_eq] at hrun
  rcases heq : Eval.program limit fuel program session.machine with ⟨_ | (error | _) | _, after⟩
  · rw [heq] at hrun
    cases hrun
    exact ⟨after, rfl, rfl⟩
  · rw [heq] at hquiet
    exact absurd rfl (hquiet error)
  · rw [heq] at hfault
    cases hfault
  · rw [heq] at hrun
    cases hrun
    exact absurd rfl hends

/-- The outcome of an evaluation on marks, with these read as lines. -/
def readOutcome (shift : Nat) (outcome : Exit Fault Unit × Machine) : Exit Fault Unit × Machine :=
  (outcome.1.map (Fault.renumber (Mark.read shift)) id, outcome.2.renumber (Mark.read shift))

/-- The run in the session comes to an outcome on marks, if the source that is run stands
so many lines further down. -/
structure Shows (session : Session) (shift : Nat) (outcome : Exit Fault Unit × Machine)
    (run : Exit SinkFault Unit × Session) : Prop where
  succeeds : run.1 = .value ()
  /-- The scopes bind what they bind on marks, and the report of an error comes last. -/
  machine : run.2.machine = { outcome.2.renumber (Mark.read shift) with
    output := outcome.2.output.taking (reportOf (readOutcome shift outcome).1) }
  diagnostics : run.2.diagnostics = session.diagnostics
  hadError : run.2.hadError = session.hadError
  hadRuntimeError : run.2.hadRuntimeError = true ↔
    session.hadRuntimeError = true ∨ ∃ error, outcome.1 = .fault (.program error)

theorem shows_conclude (session : Session) (shift : Nat) {exit : Exit Fault Unit}
    {marked : Machine} (hworks : marked.output.Works) (hfault : exit.sinkFault? = none)
    (hends : exit ≠ .outOfFuel) :
    Shows session shift (exit, marked) (session.conclude (readOutcome shift (exit, marked))) := by
  have hread : (exit.map (Fault.renumber (Mark.read shift)) id).sinkFault? = none := by
    rcases exit with _ | (_ | _) | _
    · rfl
    · rfl
    · cases hfault
    · rfl
  have hunfinished : exit.map (Fault.renumber (Mark.read shift)) id ≠ .outOfFuel := by
    cases exit with
    | outOfFuel => exact absurd rfl hends
    | _ => nofun
  have hraised : (∃ error, exit.map (Fault.renumber (Mark.read shift)) id =
      .fault (.program error)) ↔ ∃ error, exit = .fault (.program error) := by
    rcases exit with _ | (_ | _) | _ <;> simp [Exit.map, Fault.renumber]
  have hoverall : (marked.renumber (Mark.read shift)).output.Works := hworks
  obtain ⟨hmachine, hsucceeds⟩ := conclude_of_works session hoverall hread
  constructor
  · exact hsucceeds (mt conclude_eq_outOfFuel_iff.mp hunfinished)
  · exact hmachine
  · exact diagnostics_conclude _
  · exact hadError_conclude _
  · rw [readOutcome, hadRuntimeError_conclude, hraised]

theorem conclude_read_iff {shift : Nat} :
    (session.conclude (readOutcome shift outcome)).1 = .outOfFuel ↔ outcome.1 = .outOfFuel := by
  rw [readOutcome, conclude_eq_outOfFuel_iff]
  obtain ⟨_ | _ | _, after⟩ := outcome <;> simp [Exit.map]

/-- A run that ends does so with more fuel as well. -/
theorem run_of_le {more : Nat} (hends : (session.run limit fuel first).1 ≠ .outOfFuel)
    (hle : fuel ≤ more) : session.run limit more first = session.run limit fuel first := by
  rcases clean_or_not session first with ⟨hclean, program, haccepts⟩ | h
  · rw [haccepts.run_eq hclean, execute_eq] at hends ⊢
    have hprogram := mt conclude_eq_outOfFuel_iff.mpr hends
    rw [haccepts.run_eq hclean, execute_eq, Eval.program_eq_of_le hprogram hle]
  · rw [run_eq_reportAll h, run_eq_reportAll h]

/-- The evaluation of the program on marks. -/
def marked (limit : Option Nat) (fuel : Nat) (program : Program) (machine : Machine) :
    Exit Fault Unit × Machine :=
  Eval.program limit fuel (Stmt.renumberEach Mark.own program) (machine.renumber Mark.earlier)

theorem marked_of_le {more : Nat} {machine : Machine}
    (hends : (marked limit fuel program machine).1 ≠ .outOfFuel) (hle : fuel ≤ more) :
    marked limit more program machine = marked limit fuel program machine :=
  Eval.program_eq_of_le hends hle

/-- Two evaluations on marks that end are the same, whatever fuel they were given. -/
theorem marked_eq_of_ends {more : Nat} {machine : Machine}
    (hends : (marked limit fuel program machine).1 ≠ .outOfFuel)
    (hmore : (marked limit more program machine).1 ≠ .outOfFuel) :
    marked limit fuel program machine = marked limit more program machine := by
  rw [← marked_of_le hends (Nat.le_max_left fuel more),
    ← marked_of_le hmore (Nat.le_max_right fuel more)]

/-- What a program does further down is what it does on marks. -/
theorem program_eq_readOutcome (limit : Option Nat) (fuel shift : Nat) (program : Program)
    (machine : Machine) :
    Eval.program limit fuel (Stmt.renumberEach (· + shift) program) machine =
      readOutcome shift (marked limit fuel program machine) := by
  have hread := Eval.program_renumber limit fuel (Mark.read shift)
    (Stmt.renumberEach Mark.own program) (machine.renumber Mark.earlier)
  rw [Stmt.renumberEach_renumberEach, Machine.renumber_renumber, Mark.read_own, Mark.read_earlier,
    Machine.renumber_id] at hread
  exact hread

theorem shows_marked (session : Session) (shift : Nat) (hworks : session.machine.output.Works)
    (hends : (marked limit fuel program session.machine).1 ≠ .outOfFuel) :
    Shows session shift (marked limit fuel program session.machine)
      (session.conclude (readOutcome shift (marked limit fuel program session.machine))) := by
  have hmarks : (session.machine.renumber Mark.earlier).output.Works := hworks
  have hgrows := Eval.grows_program limit fuel (Stmt.renumberEach Mark.own program)
    (session.machine.renumber Mark.earlier)
  have hfault := Eval.sinkFault?_program limit fuel (Stmt.renumberEach Mark.own program)
    (session.machine.renumber Mark.earlier) hmarks
  exact shows_conclude session shift (hmarks.grows hgrows) hfault hends

/-- A source that is run by itself stands no lines further down. -/
theorem Accepts.run_eq_marked (h : Accepts first program) (hclean : session.hadError = false) :
    session.run limit fuel first =
      session.conclude (readOutcome 0 (marked limit fuel program session.machine)) := by
  rw [h.run_eq hclean, execute_eq, ← program_eq_readOutcome]
  exact congrArg (fun nodes => session.conclude (Eval.program limit fuel nodes session.machine))
    (Stmt.renumberEach_id program).symm

/-- Behind another source, whose program ends normally, a source goes on where that ends. -/
theorem Accepts.run_join (hfirst : Accepts first program) (hsecond : Accepts second other)
    (hclean : session.hadError = false) (hworks : session.machine.output.Works) {after : Machine}
    (hprogram : Eval.program limit fuel program session.machine = (.value (), after))
    {more : Nat} (hle : fuel ≤ more) :
    session.run limit more (first ++ "\n" ++ second) =
      session.conclude (readOutcome (lineAfter first.toList)
        (marked limit (more - program.length) other after)) := by
  have hregular := Program.regular_of_ofTokens hfirst.parsed
  rw [(hfirst.join hsecond).run_eq hclean, execute_eq,
    Eval.program_append _ hregular hworks hprogram hle, program_eq_readOutcome]

/-- Running a source and then another makes no difference to running both as one. Let the
first run without an error. Then the second ends if and only if the joined source does.
They succeed with the same flags, and an evaluation of the second on marks tells what
they leave: both the same output and the same bindings, but that in the joined source the
second stands further down, by as many lines as the first has. -/
theorem runs_join (limit : Option Nat) (hclean : session.hadError = false)
    (hworks : session.machine.output.Works) (hfirst : Accepts first program)
    (hsecond : Accepts second other) {exit : Exit SinkFault Unit}
    (hrun : session.run limit fuel first = (exit, middle)) (hends : exit ≠ .outOfFuel)
    (hquiet : ∀ error, ¬ Reports limit fuel session first error) :
    ((∃ enough, (middle.run limit enough second).1 ≠ .outOfFuel) ↔
      ∃ enough, (session.run limit enough (first ++ "\n" ++ second)).1 ≠ .outOfFuel) ∧
    ∀ enough more separate joined, middle.run limit enough second = separate →
      session.run limit more (first ++ "\n" ++ second) = joined →
      separate.1 ≠ .outOfFuel → joined.1 ≠ .outOfFuel →
        separate.2.hadError = joined.2.hadError ∧
        separate.2.hadRuntimeError = joined.2.hadRuntimeError ∧
        ∃ outcome, marked limit enough other middle.machine = outcome ∧
          Shows middle 0 outcome separate ∧
          Shows middle (lineAfter first.toList) outcome joined := by
  obtain ⟨after, hprogram, hmiddle⟩ := hfirst.run_ends hclean hworks hrun hends hquiet
  have hmachine : middle.machine = after := by rw [hmiddle]
  have hmiddleClean : middle.hadError = false := by rw [hmiddle, hclean]
  have hmiddleWorks : middle.machine.output.Works := by
    have hgrows := Eval.grows_program limit fuel program session.machine
    rw [hprogram] at hgrows
    rw [hmachine]
    exact hworks.grows hgrows
  -- both ways of running are the evaluation on marks, read in two ways
  have hseparate (enough : Nat) : middle.run limit enough second =
      middle.conclude (readOutcome 0 (marked limit enough other middle.machine)) :=
    hsecond.run_eq_marked hmiddleClean
  have hjoined {enough : Nat} (hle : fuel ≤ enough) :
      session.run limit enough (first ++ "\n" ++ second) =
        middle.conclude (readOutcome (lineAfter first.toList)
          (marked limit (enough - program.length) other middle.machine)) := by
    rw [hfirst.run_join hsecond hclean hworks hprogram hle, hmachine, hmiddle]
    exact (conclude_withMachine session after _).symm
  constructor
  · constructor
    · rintro ⟨enough, hended⟩
      rw [hseparate, ne_eq, conclude_read_iff] at hended
      -- every statement of the first takes a unit of fuel, and the first has to end as well
      have hle : enough ≤ enough + program.length + fuel - program.length := by omega
      refine ⟨enough + program.length + fuel, ?_⟩
      rw [hjoined (Nat.le_add_left _ _), ne_eq, conclude_read_iff, marked_of_le hended hle]
      exact hended
    · rintro ⟨enough, hended⟩
      rw [← run_of_le hended (Nat.le_add_right enough fuel), hjoined (Nat.le_add_left _ _), ne_eq,
        conclude_read_iff] at hended
      refine ⟨enough + fuel - program.length, ?_⟩
      rw [hseparate, ne_eq, conclude_read_iff]
      exact hended
  · rintro enough more separate joined rfl rfl hended hjoinedEnded
    rw [← run_of_le hjoinedEnded (Nat.le_add_right more fuel), hjoined (Nat.le_add_left _ _)]
    rw [← run_of_le hjoinedEnded (Nat.le_add_right more fuel), hjoined (Nat.le_add_left _ _), ne_eq,
      conclude_read_iff] at hjoinedEnded
    rw [hseparate, ne_eq, conclude_read_iff] at hended
    have hshows (shift : Nat) := shows_marked middle shift hmiddleWorks hended
    rw [hseparate, ← marked_eq_of_ends hended hjoinedEnded]
    refine ⟨?_, ?_, _, rfl, hshows 0, hshows (lineAfter first.toList)⟩
    · rw [(hshows 0).hadError, (hshows (lineAfter first.toList)).hadError]
    · rw [Bool.eq_iff_iff, (hshows 0).hadRuntimeError,
        (hshows (lineAfter first.toList)).hadRuntimeError]

/-- A source that prints and, behind it, one that adds what cannot be added: in the joined
source that is one line further down. -/
theorem runs_join_print :
    ∃ (middle : Session) (outcome : Exit Fault Unit × Machine),
      (start (.ticking 0) .unlimited .unlimited).run (some maxCallDepth) 3 "print nil;" =
        (.value (), middle) ∧
      Shows middle 0 outcome (middle.run (some maxCallDepth) 9 "nil+nil;") ∧
      Shows middle 1 outcome
        ((start (.ticking 0) .unlimited .unlimited).run (some maxCallDepth) 9
          "print nil;\nnil+nil;") := by
  have hfirst : Accepts "print nil;" [.print (.literal .nil)] := ⟨by cbv, by cbv⟩
  have hsecond : Accepts "nil+nil;"
      [.expression (.binary (.literal .nil) ⟨.plus, "+", none, 1⟩ (.literal .nil))] :=
    ⟨by cbv, by cbv⟩
  have hjoin : "print nil;" ++ "\n" ++ "nil+nil;" = "print nil;\nnil+nil;" := by decide +kernel
  have hshift : lineAfter "print nil;".toList = 1 := by decide +kernel
  obtain ⟨after, hafter⟩ : ∃ after, Eval.program (some maxCallDepth) 3 [.print (.literal .nil)]
      (.start (.ticking 0) .unlimited) = (.value (), after) := ⟨_, rfl⟩
  have hrun : (start (.ticking 0) .unlimited .unlimited).run (some maxCallDepth) 3 "print nil;" =
      (.value (), { start (.ticking 0) .unlimited .unlimited with machine := after }) :=
    hfirst.run_of_value rfl hafter
  have hquiet (error : RuntimeError) :
      ¬ Reports (some maxCallDepth) 3 (start (.ticking 0) .unlimited .unlimited) "print nil;"
        error := by
    rw [hfirst.reports_iff rfl]
    show (Eval.program _ _ _ (.start (.ticking 0) .unlimited)).1 ≠ _
    rw [hafter]
    simp
  obtain ⟨_, hagree⟩ := runs_join (some maxCallDepth) rfl Sink.works_unlimited hfirst hsecond hrun
    (by simp) hquiet
  obtain ⟨_, _, outcome, _, hseparate, hjoined⟩ := hagree 9 9 _ _ rfl rfl
    (by
      rw [hsecond.run_eq rfl, execute_eq, ne_eq, conclude_eq_outOfFuel_iff]
      intro h
      cases h)
    (by
      rw [(hfirst.join hsecond).run_eq rfl, execute_eq, ne_eq, conclude_eq_outOfFuel_iff]
      intro h
      cases h)
  rw [hjoin, hshift] at hjoined
  exact ⟨_, outcome, hrun, hseparate, hjoined⟩

end Session

end LoxLang
