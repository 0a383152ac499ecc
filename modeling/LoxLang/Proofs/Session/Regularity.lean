/-
# Sessions run regular programs

A session executes only what was read from its sources, so every tree that comes to be
evaluated in it is regular, and so is every function that it stores. It makes no
difference how many sources were run before, how these ended, and which of them declared
a function that is called now.

So no run reports an operator that is none, no statement at the top level of a program
ends with a return, and a program is executed to its last statement unless one of them
ends with a fault.
-/

import LoxLang.Proofs.Evaluation.Failure
import LoxLang.Proofs.Evaluation.Regularity
import LoxLang.Session
import Mathlib

namespace LoxLang

/-! ## Messages -/

namespace RuntimeFault

theorem Regular.message_ne {fault : RuntimeFault} (h : fault.Regular) :
    fault.message ≠ "Invalid unary operator." ∧ fault.message ≠ "Invalid binary operator." := by
  obtain ⟨hunary, hbinary⟩ := h
  have hother {first : Char} (hne : first ≠ 'I')
      (hfirst : fault.message.toList.head? = some first) :
      fault.message ≠ "Invalid unary operator." ∧ fault.message ≠ "Invalid binary operator." := by
    constructor
    · intro heq
      rw [heq] at hfirst
      exact hne (Option.some.inj hfirst).symm
    · intro heq
      rw [heq] at hfirst
      exact hne (Option.some.inj hfirst).symm
  cases fault with
  | invalidUnaryOperator => exact absurd rfl hunary
  | invalidBinaryOperator => exact absurd rfl hbinary
  | undefinedVariable name => exact hother (by decide) (head?_message_undefinedVariable name)
  | wrongArity expected given => exact hother (by decide) (head?_message_wrongArity expected given)
  | _ => exact ⟨by decide, by decide⟩

end RuntimeFault

/-! ## How a sequence of statements ends -/

namespace Eval

variable (limit : Option Nat)

/-- The statements are executed one after the other, each to its normal end. -/
inductive Completes : List Stmt → Machine → Machine → Prop
  | nil {machine : Machine} : Completes [] machine machine
  | cons {first : Stmt} {others : List Stmt} {machine middle after : Machine} {fuel : Nat} :
      statement limit fuel first machine = (.value .normal, middle) →
      Completes others middle after → Completes (first :: others) machine after

/-- One of the statements ends with the fault, and those before it end normally. -/
inductive Breaks : List Stmt → Machine → Fault → Machine → Prop
  | here {first : Stmt} {others : List Stmt} {machine after : Machine} {cause : Fault}
      {fuel : Nat} :
      statement limit fuel first machine = (.fault cause, after) →
      Breaks (first :: others) machine cause after
  | later {first : Stmt} {others : List Stmt} {machine middle after : Machine} {cause : Fault}
      {fuel : Nat} :
      statement limit fuel first machine = (.value .normal, middle) →
      Breaks others middle cause after → Breaks (first :: others) machine cause after

/-- The statements were executed to the last, unless one of them ended with the fault. -/
def RunsOn (nodes : List Stmt) (machine : Machine) : Exit Fault Flow × Machine → Prop
  | (.value flow, after) => flow = .normal ∧ Completes limit nodes machine after
  | (.fault cause, after) => Breaks limit nodes machine cause after
  | (.outOfFuel, _) => True

/-- How a program can end of which that is true. Its output is flushed last. -/
inductive Ends (nodes : List Stmt) (machine : Machine) : Exit Fault Unit → Machine → Prop
  | completed {exit : Exit Fault Unit} {last after : Machine} :
      Completes limit nodes machine last → Action.flush last = (exit, after) →
      Ends nodes machine exit after
  | broken {cause : Fault} {after : Machine} :
      Breaks limit nodes machine cause after → Ends nodes machine (.fault cause) after
  | unfinished {after : Machine} : Ends nodes machine .outOfFuel after

variable {limit} {fuel : Nat} {nodes : List Stmt} {machine after : Machine}

theorem Completes.regular (h : Completes limit nodes machine after)
    (hnodes : ∀ node ∈ nodes, node.Regular false) (hm : machine.Regular) : after.Regular := by
  induction h with
  | nil => exact hm
  | @cons _ _ _ _ _ fuel hfirst _ ih =>
      obtain ⟨hnode, hothers⟩ := List.forall_mem_cons.mp hnodes
      have hmiddle := ((safe limit fuel).statement hnode _ hm).2
      rw [hfirst] at hmiddle
      exact ih hothers hmiddle

/-- No statement outside of functions ends with a return. -/
theorem statement_ne_returned {node : Stmt} (hnode : node.Regular false) (hm : machine.Regular)
    {value : Value} : statement limit fuel node machine ≠ (.value (.returned value), after) := by
  intro heq
  have hexit := ((safe limit fuel).statement hnode machine hm).1
  rw [heq] at hexit
  cases hexit.1

/-- Statements outside of functions are all executed, up to the first that faults. -/
theorem body_runsOn (fuel : Nat) (hnodes : ∀ node ∈ nodes, node.Regular false)
    (hm : machine.Regular) : RunsOn limit nodes machine (body limit fuel nodes machine) := by
  induction fuel generalizing nodes machine with
  | zero =>
      rw [body]
      trivial
  | succ fuel ih =>
      cases nodes with
      | nil =>
          rw [body]
          exact ⟨rfl, .nil⟩
      | cons first others =>
          obtain ⟨hfirst, hothers⟩ := List.forall_mem_cons.mp hnodes
          obtain ⟨hexit, hmiddle⟩ := (safe limit fuel).statement hfirst machine hm
          rw [body]
          show RunsOn limit (first :: others) machine
            (Action.bind (statement limit fuel first) _ machine)
          rw [Action.bind]
          rcases heq : statement limit fuel first machine with ⟨(_ | value) | cause | _, middle⟩
          · rw [heq] at hmiddle
            have hrest := ih hothers hmiddle
            revert hrest
            show RunsOn limit others middle (body limit fuel others middle) →
              RunsOn limit (first :: others) machine (body limit fuel others middle)
            rcases body limit fuel others middle with ⟨flow | cause | _, after⟩
            · rintro ⟨rfl, hcompletes⟩
              exact ⟨rfl, .cons heq hcompletes⟩
            · intro hbreaks
              exact .later heq hbreaks
            · exact id
          · exact absurd heq (statement_ne_returned hfirst hm)
          · exact .here heq
          · trivial

/-- So a program ends with its last statement, unless one of them ends with a fault. -/
theorem program_ends (fuel : Nat) (hnodes : ∀ node ∈ nodes, node.Regular false)
    (hm : machine.Regular) :
    Ends limit nodes machine (program limit fuel nodes machine).1
      (program limit fuel nodes machine).2 := by
  have hbody : RunsOn limit nodes machine (body limit fuel nodes machine) :=
    body_runsOn fuel hnodes hm
  rw [program]
  show Ends limit nodes machine (Action.bind (body limit fuel nodes) _ machine).1
    (Action.bind (body limit fuel nodes) _ machine).2
  rw [Action.bind]
  revert hbody
  rcases body limit fuel nodes machine with ⟨flow | cause | _, after⟩
  · rintro ⟨_, hcompletes⟩
    exact .completed hcompletes rfl
  · exact .broken
  · exact fun _ => .unfinished

end Eval

/-! ## What a run comes to -/

namespace Session

variable {limit : Option Nat} {fuel : Nat} {session ready : Session} {source : String}
  {program : Program}

/-- Running the source comes to executing the program on the session `ready`: there are
no lexical errors left unreported, the tokens are read as the program, and no syntax
error is remembered. -/
structure Interprets (session : Session) (source : String) (program : Program)
    (ready : Session) : Prop where
  reported : session.reportAll ((LexError.ofScan (Token.scan source)).map LexError.diagnostic) =
    (.value (), ready)
  parsed : Program.ofTokens (Token.ofScan (Token.scan source)) = .ok program
  clean : ready.hadError = false

/-- Running the source reports the runtime error. -/
def Reports (limit : Option Nat) (fuel : Nat) (session : Session) (source : String)
    (error : RuntimeError) : Prop :=
  ∃ program ready after, session.Interprets source program ready ∧
    Eval.program limit fuel program ready.machine = (.fault (.program error), after)

theorem machine_report (session : Session) (error : Diagnostic) :
    (session.report error).2.machine = session.machine :=
  rfl

theorem machine_reportAll (session : Session) (errors : List Diagnostic) :
    (session.reportAll errors).2.machine = session.machine := by
  induction errors generalizing session with
  | nil => rfl
  | cons error others ih =>
      have herror := machine_report session error
      rw [reportAll]
      split
      next after heq =>
        rw [heq] at herror
        rw [ih, herror]
      next => exact herror

theorem Interprets.machine (h : session.Interprets source program ready) :
    ready.machine = session.machine := by
  have hmachine := machine_reportAll session
    ((LexError.ofScan (Token.scan source)).map LexError.diagnostic)
  rw [h.reported] at hmachine
  exact hmachine

/-- Running a source either executes the program it is read as or leaves the machine
alone. -/
theorem run_cases (limit : Option Nat) (fuel : Nat) (session : Session) (source : String) :
    (∃ program ready, session.Interprets source program ready ∧
      session.run limit fuel source = ready.execute limit fuel program) ∨
    (session.run limit fuel source).2.machine = session.machine := by
  have hmachine := machine_reportAll session
    ((LexError.ofScan (Token.scan source)).map LexError.diagnostic)
  rw [run]
  split
  next ready heq =>
    rw [heq] at hmachine
    split
    next errors _ =>
      right
      rw [machine_reportAll, hmachine]
    next program hparsed =>
      cases hclean : ready.hadError with
      | true => exact .inr hmachine
      | false => exact .inl ⟨program, ready, ⟨heq, hparsed, hclean⟩, rfl⟩
  next => exact .inr hmachine

theorem Interprets.run_eq (h : session.Interprets source program ready) :
    session.run limit fuel source = ready.execute limit fuel program := by
  rw [run]
  simp only [h.reported, h.parsed, h.clean]
  rfl

/-- A session at any time: some sources were run in it and some only scanned, its errors
were forgotten now and then, time went by, and its streams were used by others. -/
inductive Reachable (limit : Option Nat) : Session → Prop
  | start {clock : Clock} {output diagnostics : Sink} :
      Reachable limit (start clock output diagnostics)
  | run {session : Session} {fuel : Nat} {source : String} :
      Reachable limit session → Reachable limit (session.run limit fuel source).2
  | tokenize {session : Session} {source : String} :
      Reachable limit session → Reachable limit (session.tokenize source).2
  | reset {session : Session} : Reachable limit session → Reachable limit session.reset
  | elapsed {session : Session} {clock : Clock} {output diagnostics : Sink} :
      Reachable limit session →
      Reachable limit
        { session with
          machine := { session.machine with clock := clock, output := output }
          diagnostics := diagnostics }

theorem regular_start (clock : Clock) (output : Sink) : (Machine.start clock output).Regular := by
  intro value hstored
  rw [Machine.eq_clock_of_stores_start hstored]
  trivial

/-- Executing a regular program keeps the functions that are stored regular. -/
theorem regular_execute (hprogram : ∀ node ∈ program, node.Regular false)
    (hm : session.machine.Regular) : (session.execute limit fuel program).2.machine.Regular := by
  have hafter := (Eval.safe_program limit fuel hprogram session.machine hm).2
  rw [execute]
  split
  next after heq =>
    rw [heq] at hafter
    exact hafter
  next after heq =>
    rw [heq] at hafter
    exact hafter
  next fault after heq =>
    rw [heq] at hafter
    exact hafter
  next error after heq =>
    rw [heq] at hafter
    exact hafter

/-- At any time, all functions that a session stores are regular. -/
theorem Reachable.regular (h : Reachable limit session) : session.machine.Regular := by
  induction h with
  | start => exact regular_start _ _
  | @run session fuel source _ ih =>
      rcases run_cases limit fuel session source with ⟨program, ready, hinterprets, heq⟩ | hsame
      · rw [heq]
        apply regular_execute (Program.regular_of_ofTokens hinterprets.parsed)
        rw [hinterprets.machine]
        exact ih
      · rw [hsame]
        exact ih
  | @tokenize session source _ ih =>
      have hmachine := machine_reportAll session
        ((LexError.ofScan (Token.scan source)).map LexError.diagnostic)
      rw [← hmachine] at ih
      rw [Session.tokenize]
      split <;> next heq =>
        rw [heq] at ih
        exact ih
  | reset _ ih => exact ih
  | elapsed _ ih => exact ih

/-- Whatever is read as a program is regular. So at any time of any session a run reports
no operator that is none, and if it comes to executing a program, none of the statements
of the program ends with a return: they are executed to the last, unless one of them ends
with a fault. -/
theorem runs_regular (limit : Option Nat) :
    (∀ tokens program, Program.ofTokens tokens = .ok program →
      ∀ node ∈ program, node.Regular false) ∧
    (∀ session source, Reachable limit session →
      (∀ fuel error, Reports limit fuel session source error →
        error.fault.message ≠ "Invalid unary operator." ∧
        error.fault.message ≠ "Invalid binary operator.") ∧
      (∀ program ready, session.Interprets source program ready →
        (∀ done node others middle fuel value after, program = done ++ node :: others →
          Eval.Completes limit done ready.machine middle →
          Eval.statement limit fuel node middle ≠ (.value (.returned value), after)) ∧
        (∀ fuel, Eval.Ends limit program ready.machine
          (Eval.program limit fuel program ready.machine).1
          (Eval.program limit fuel program ready.machine).2))) := by
  refine ⟨fun tokens program => Program.regular_of_ofTokens, fun session source hreachable => ?_⟩
  have hregular {program : Program} {ready : Session}
      (h : session.Interprets source program ready) :
      (∀ node ∈ program, node.Regular false) ∧ ready.machine.Regular := by
    rw [h.machine]
    exact ⟨Program.regular_of_ofTokens h.parsed, hreachable.regular⟩
  constructor
  · rintro fuel error ⟨program, ready, after, hinterprets, heq⟩
    obtain ⟨hprogram, hready⟩ := hregular hinterprets
    have hexit := (Eval.safe_program limit fuel hprogram ready.machine hready).1
    rw [heq] at hexit
    exact RuntimeFault.Regular.message_ne hexit
  · intro program ready hinterprets
    obtain ⟨hprogram, hready⟩ := hregular hinterprets
    constructor
    · rintro done node others middle fuel value after rfl hdone
      obtain ⟨hbefore, hrest⟩ := List.forall_mem_append.mp hprogram
      obtain ⟨hnode, _⟩ := List.forall_mem_cons.mp hrest
      exact Eval.statement_ne_returned hnode (hdone.regular hbefore hready)
    · exact fun fuel => Eval.program_ends fuel hprogram hready

/-- A function that returns is declared and called, and the source runs to its end. -/
theorem runs_regular_function :
    ∃ program ready,
      (start (.ticking 0) .unlimited .unlimited).Interprets "fun f(){return !nil;}f();" program
        ready ∧ ∀ fuel, Eval.Ends (some maxCallDepth) program ready.machine
        (Eval.program (some maxCallDepth) fuel program ready.machine).1
        (Eval.program (some maxCallDepth) fuel program ready.machine).2 := by
  have hinterprets : (start (.ticking 0) .unlimited .unlimited).Interprets
      "fun f(){return !nil;}f();"
      [.function ⟨.identifier, "f", none, 1⟩ [] [.ret ⟨.keyword .return, "return", none, 1⟩
          (some (.unary ⟨.bang, "!", none, 1⟩ (.literal .nil)))],
        .expression (.call (.variable ⟨.identifier, "f", none, 1⟩) ⟨.rightParen, ")", none, 1⟩ [])]
      (start (.ticking 0) .unlimited .unlimited) := ⟨by cbv, by cbv, rfl⟩
  exact ⟨_, _, hinterprets,
    ((runs_regular (some maxCallDepth)).2 _ _ .start |>.2 _ _ hinterprets).2⟩

end Session

end LoxLang
