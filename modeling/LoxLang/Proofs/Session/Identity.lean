/-
# Functions are equal if they are the same

Functions are compared by their identity, which is only a number. In every run, however, an
identity is given out once, and what has it is the function that was made then: it may be
stored under other names, passed on, returned or decided for by a conjunction, and is never
changed by that. So functions are equal exactly if they stem from the same execution of a
declaration, and two executions never make equal functions, though the declaration be the same.

A run is what a machine has been asked for since it was started. Functions that are called from
outside, or passed as arguments from there, are those that the run has come up with before.
-/

import LoxLang.Proofs.Evaluation.Provenance
import LoxLang.Proofs.Evaluation.Requests
import LoxLang.Proofs.Session.Regularity

namespace LoxLang

/-- A run that has led to the machine, with the functions that were made by executions of
declarations, in order, and the callables that have occurred. -/
inductive Run (limit : Option Nat) : Machine → List Function → (Callable → Prop) → Prop
  | start {clock : Clock} {output : Sink} :
      Run limit (.start clock output) [] (Machine.start clock output).Stores
  | perform {machine : Machine} {made : List Function} {occurred : Callable → Prop} {fuel : Nat}
      {request : Request} :
      Run limit machine made occurred →
      (∀ {function : Callable}, request.task.Passes function → occurred function) →
      Run limit (request.perform limit fuel machine)
        (made ++ Eval.made limit fuel request.task machine)
        (fun function => occurred function ∨
          Eval.Occurs limit fuel request.task machine function)
  | elapsed {machine : Machine} {made : List Function} {occurred : Callable → Prop} {clock : Clock}
      {output : Sink} :
      Run limit machine made occurred →
      Run limit { machine with clock := clock, output := output } made occurred

/-- What a callable stems from. -/
inductive Origin
  | /-- The execution of a declaration, by its place among all of the run. -/
    execution (index : Nat)
  | /-- A function that the language provides. -/
    provided (builtin : Builtin)

/-- The callable stems from the origin, `made` being the functions that the executions of
declarations made. -/
inductive StemsFrom (made : List Function) : Callable → Origin → Prop
  | execution {index : Nat} {function : Function} :
      made[index]? = some function → StemsFrom made (.declared function) (.execution index)
  | provided {builtin : Builtin} {identity : Identity} :
      StemsFrom made (.native builtin identity) (.provided builtin)

/-- Whatever is requested, only the output can differ from what the task leaves: that of a
program is flushed. -/
theorem Request.perform_eq_last {limit : Option Nat} {fuel : Nat} (request : Request)
    (machine : Machine) : ∃ output, request.perform limit fuel machine =
      { request.task.last limit fuel machine with output := output } := by
  cases request with
  | interpret program =>
      show ∃ output,
        (Action.bind (Eval.body limit fuel program) (fun _ => Action.flush) machine).2 =
          { (Eval.body limit fuel program machine).2 with output := output }
      rw [Action.bind]
      rcases Eval.body limit fuel program machine with ⟨flow | cause | _, after⟩
      · show ∃ output, (Action.flush after).2 = { after with output := output }
        rw [Action.flush, Action.request]
        rcases after.output.flush with ⟨_ | fault, output⟩ <;> exact ⟨output, rfl⟩
      · exact ⟨after.output, rfl⟩
      · exact ⟨after.output, rfl⟩
  | execute node => exact ⟨_, rfl⟩
  | evaluate node => exact ⟨_, rfl⟩
  | call function arguments => exact ⟨_, rfl⟩

namespace Run

/-- The function is what a declaration makes that is executed during a request of the run, which
made all the given functions. -/
def Executed (limit : Option Nat) (made : List Function) (function : Function) : Prop :=
  ∃ machine earlier occurred fuel, ∃ request : Request, ∃ left name parameters body reached,
    Run limit machine earlier occurred ∧
      earlier ++ Eval.made limit fuel request.task machine <+: made ∧
      Eval.During limit fuel request.task machine (left + 1)
        (.statement (.function name parameters body)) reached ∧
      function = ⟨name, parameters, body, .global, reached.supply⟩

variable {limit : Option Nat} {machine : Machine} {made : List Function}
  {occurred : Callable → Prop} {function other : Callable} {origin : Origin}

/-- Whatever was made in a run was made by executing a declaration. -/
theorem executed_of_mem (h : Run limit machine made occurred) {declared : Function}
    (hmem : declared ∈ made) : Executed limit made declared := by
  induction h with
  | start => cases hmem
  | @perform machine made occurred fuel request hrun _ ih =>
      rcases List.mem_append.mp hmem with hold | hnew
      · obtain ⟨earlier, before, known, fuel, request, left, name, parameters, body, reached,
          hbefore, hprefix, hduring, heq⟩ := ih hold
        exact ⟨earlier, before, known, fuel, request, left, name, parameters, body, reached,
          hbefore, hprefix.trans (List.prefix_append _ _), hduring, heq⟩
      · obtain ⟨left, name, parameters, body, reached, hduring, heq⟩ := Eval.mem_made_iff.mp hnew
        exact ⟨machine, made, occurred, fuel, request, left, name, parameters, body, reached,
          hrun, List.prefix_refl _, hduring, heq⟩
  | elapsed _ ih => exact ih hmem

/-- What a run has come to: the functions that were made have consecutive identities, and they
are all there is besides the clock. -/
structure Traced (machine : Machine) (made : List Function) (occurred : Callable → Prop) :
    Prop where
  numbered : Eval.Numbered Builtin.all.length made
  covers : (Eval.Account.mk (Builtin.all.length + made.length) occurred).Covers machine
  known {function : Callable} : occurred function →
    function = .native .clock 0 ∨ ∃ origin ∈ made, function = .declared origin

theorem traced (h : Run limit machine made occurred) : Traced machine made occurred := by
  induction h with
  | start =>
      refine ⟨rfl, ⟨rfl, id⟩, fun hstores => ?_⟩
      cases Machine.eq_clock_of_stores_start hstores
      exact .inl rfl
  | @perform machine made occurred fuel request _ hpasses ih =>
      have hexplained := Eval.Account.explained limit fuel ih.covers hpasses
      obtain ⟨output, hlast⟩ := request.perform_eq_last machine
      refine ⟨ih.numbered.append hexplained.numbered, ⟨?_, ?_⟩, ?_⟩
      · rw [hlast, List.length_append, ← Nat.add_assoc]
        exact hexplained.covers.supply
      · intro function hstores
        rw [hlast] at hstores
        exact .inr ⟨fuel, request.task, machine, .self, .inr (.inr (.inl hstores))⟩
      · intro function hoccurred
        have hknown : occurred function ∨
            ∃ origin ∈ Eval.made limit fuel request.task machine, function = .declared origin := by
          rcases hoccurred with hold | hoccurs
          · exact .inl hold
          · exact ih.covers.occurs hpasses hoccurs
        rcases hknown with hold | ⟨origin, hmem, heq⟩
        · refine (ih.known hold).imp id ?_
          rintro ⟨origin, hmem, heq⟩
          exact ⟨origin, List.mem_append_left _ hmem, heq⟩
        · exact .inr ⟨origin, List.mem_append_right _ hmem, heq⟩
  | elapsed _ ih => exact ⟨ih.numbered, ⟨ih.covers.supply, ih.covers.stored⟩, ih.known⟩

/-- Whatever occurs has an origin. -/
theorem Traced.exists_stemsFrom (h : Traced machine made occurred) (hoccurred : occurred function) :
    ∃ origin, StemsFrom made function origin := by
  rcases h.known hoccurred with rfl | ⟨declared, hmem, rfl⟩
  · exact ⟨_, .provided⟩
  · obtain ⟨index, hindex⟩ := List.mem_iff_getElem?.mp hmem
    exact ⟨_, .execution hindex⟩

/-- Functions that were made are the same exactly if they were made by the same execution. -/
theorem same_iff {first : Identity} (h : Eval.Numbered first made) {i j : Nat} {f g : Function}
    (hf : made[i]? = some f) (hg : made[j]? = some g) :
    (Callable.declared f).same (.declared g) = true ↔ i = j := by
  rw [Callable.same, beq_iff_eq, h.identity hf, h.identity hg]
  exact Nat.add_left_cancel_iff

theorem Traced.same_iff_stemsFrom (h : Traced machine made occurred) (hfunction : occurred function)
    (hother : occurred other) : function.same other = true ↔
      ∃ origin, StemsFrom made function origin ∧ StemsFrom made other origin := by
  rcases h.known hfunction with rfl | ⟨f, hf, rfl⟩ <;> rcases h.known hother with rfl | ⟨g, hg, rfl⟩
  · exact iff_of_true rfl ⟨_, .provided, .provided⟩
  · refine iff_of_false Bool.false_ne_true ?_
    rintro ⟨origin, hfunction, hother⟩
    cases hfunction
    cases hother
  · refine iff_of_false Bool.false_ne_true ?_
    rintro ⟨origin, hfunction, hother⟩
    cases hother
    cases hfunction
  · obtain ⟨i, hi⟩ := List.mem_iff_getElem?.mp hf
    obtain ⟨j, hj⟩ := List.mem_iff_getElem?.mp hg
    constructor
    · intro hsame
      obtain rfl := (same_iff h.numbered hi hj).mp hsame
      exact ⟨_, .execution hi, .execution hj⟩
    · rintro ⟨_, ⟨hf⟩, ⟨hg⟩⟩
      exact (same_iff h.numbered hf hg).mpr rfl

/-- Nothing has two origins. -/
theorem Traced.stemsFrom_unique (h : Traced machine made occurred) {second : Origin}
    (horigin : StemsFrom made function origin) (hsecond : StemsFrom made function second) :
    second = origin := by
  cases horigin with
  | provided =>
      cases hsecond
      rfl
  | execution hindex =>
      cases hsecond with
      | execution hother =>
          have hsame := (same_iff h.numbered hother hindex).mp
            (by rw [Callable.same, beq_self_eq_true])
          rw [hsame]

/-- Equality of functions is identity of the execution that made them. In every run, each
function that occurs stems from one execution of a declaration, or is provided by the language,
and functions are equal exactly if they have the same origin. So the function that an execution
makes differs from all that were made before, and equal functions have the same name, parameters
and body. What counts as made by an execution is what a declaration made that was executed during
a request. -/
theorem functions_equal_iff (limit : Option Nat) (machine : Machine) (made : List Function)
    (occurred : Callable → Prop) (h : Run limit machine made occurred) :
    (∀ f, occurred f → ∃! origin, StemsFrom made f origin) ∧
    (∀ f g, occurred f → occurred g → ((Value.callable f).equals (.callable g) = true ↔
      ∃ origin, StemsFrom made f origin ∧ StemsFrom made g origin)) ∧
    (∀ (i j : Nat) (f g : Function), i < j → made[i]? = some f → made[j]? = some g →
      (Value.callable (.declared f)).equals (.callable (.declared g)) = false) ∧
    (∀ f g, occurred (.declared f) → occurred (.declared g) →
      (Value.callable (.declared f)).equals (.callable (.declared g)) = true →
        f.name = g.name ∧ f.parameters = g.parameters ∧ f.body = g.body) ∧
    (∀ (i : Nat) (f : Function), made[i]? = some f → Executed limit made f) := by
  have htraced := h.traced
  refine ⟨fun f hf => ?_, fun f g hf hg => htraced.same_iff_stemsFrom hf hg,
    fun i j f g hlt hf hg => ?_, fun f g hf hg hequal => ?_,
    fun i f hf => h.executed_of_mem (List.mem_of_getElem? hf)⟩
  · obtain ⟨origin, horigin⟩ := htraced.exists_stemsFrom hf
    exact ⟨origin, horigin, fun second hsecond => htraced.stemsFrom_unique horigin hsecond⟩
  · apply eq_false_of_ne_true
    exact fun hequal => hlt.ne ((same_iff htraced.numbered hf hg).mp hequal)
  · obtain ⟨origin, hfirst, hsecond⟩ := (htraced.same_iff_stemsFrom hf hg).mp hequal
    cases hfirst with
    | execution hindex =>
        cases hsecond with
        | execution hother =>
            rw [hindex] at hother
            cases hother
            exact ⟨rfl, rfl, rfl⟩

/-- A function `f` declares a function `g`, and is called twice. -/
def twiceCalled : Program :=
  [.function ⟨.identifier, "f", none, 1⟩ [] [.function ⟨.identifier, "g", none, 1⟩ [] []],
    .expression (.call (.variable ⟨.identifier, "f", none, 1⟩) ⟨.rightParen, ")", none, 1⟩ []),
    .expression (.call (.variable ⟨.identifier, "f", none, 1⟩) ⟨.rightParen, ")", none, 1⟩ [])]

/-- One declaration is executed by both calls, and the functions that it makes are not equal. -/
theorem functions_equal_iff_twice_called :
    (∃ occurred, Run (some maxCallDepth)
      ((Request.interpret twiceCalled).perform (some maxCallDepth) 10
        (.start (.ticking 0) .unlimited))
      (Eval.made (some maxCallDepth) 10 (.body twiceCalled) (.start (.ticking 0) .unlimited))
      occurred) ∧
    (Eval.made (some maxCallDepth) 10 (.body twiceCalled)
      (.start (.ticking 0) .unlimited)).map (·.name.lexeme) = ["f", "g", "g"] ∧
    ∀ f g,
      (Eval.made (some maxCallDepth) 10 (.body twiceCalled)
        (.start (.ticking 0) .unlimited))[1]? = some f →
      (Eval.made (some maxCallDepth) 10 (.body twiceCalled)
        (.start (.ticking 0) .unlimited))[2]? = some g →
        (Value.callable (.declared f)).equals (.callable (.declared g)) = false := by
  have hrun : ∃ occurred, Run (some maxCallDepth)
      ((Request.interpret twiceCalled).perform (some maxCallDepth) 10
        (.start (.ticking 0) .unlimited))
      (Eval.made (some maxCallDepth) 10 (.body twiceCalled) (.start (.ticking 0) .unlimited))
      occurred :=
    ⟨_, .perform .start fun hpasses => by cases hpasses⟩
  refine ⟨hrun, by decide +kernel, fun f g hf hg => ?_⟩
  obtain ⟨occurred, hrun⟩ := hrun
  exact (functions_equal_iff _ _ _ _ hrun).2.2.1 1 2 f g (by decide) hf hg

end Run

/-! ## Sessions -/

namespace Session

/-- Executing a program leaves what the program leaves, and a report on the output. -/
theorem machine_execute (limit : Option Nat) (fuel : Nat) (session : Session) (program : Program) :
    ∃ output, (session.execute limit fuel program).2.machine =
      { (Eval.program limit fuel program session.machine).2 with output := output } := by
  rw [execute]
  split
  next after heq => exact ⟨after.output, by rw [heq]⟩
  next after heq => exact ⟨after.output, by rw [heq]⟩
  next fault after heq => exact ⟨after.output, by rw [heq]⟩
  next error after heq =>
    rw [heq]
    exact ⟨_, rfl⟩

/-- Whatever was done in a session, a run has led to its machine. -/
theorem Reachable.exists_run {limit : Option Nat} {session : Session}
    (h : Reachable limit session) : ∃ made occurred, Run limit session.machine made occurred := by
  induction h with
  | start => exact ⟨_, _, .start⟩
  | @run session fuel source _ ih =>
      rcases run_cases limit fuel session source with ⟨program, ready, hinterprets, heq⟩ | hsame
      · obtain ⟨made, occurred, hrun⟩ := ih
        obtain ⟨output, hmachine⟩ := machine_execute limit fuel ready program
        rw [heq, hmachine, hinterprets.machine]
        have hafter :
            Run limit ((Request.interpret program).perform limit fuel session.machine) _ _ :=
          .perform hrun fun hpasses => by cases hpasses
        exact ⟨_, _, .elapsed hafter⟩
      · rw [hsame]
        exact ih
  | @tokenize session source _ ih =>
      have hmachine := machine_reportAll session
        ((LexError.ofScan (Token.scan source)).map LexError.diagnostic)
      rw [← hmachine] at ih
      rw [Session.tokenize]
      split <;> next heq =>
        rw [heq] at ih
        exact ih
  | reset _ ih => exact ih
  | elapsed _ ih =>
      obtain ⟨made, occurred, hrun⟩ := ih
      exact ⟨made, occurred, .elapsed hrun⟩

end Session

end LoxLang
