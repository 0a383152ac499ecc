/-
# The limit of calls

A limit of calls is only noticed where it is reached. A run without it does the same step by
step, until a call is ready while as many calls are in progress as the limit allows. There
the run with the limit fails, and nothing of the called function has been executed; the run
without it goes on, and writes more after what was written so far.

So the run with a limit fails for it exactly if it comes to such a call, and a run that never
has more calls in progress than the limit is the same with it and without.
-/

import LoxLang.Proofs.Evaluation.Failure
import LoxLang.Proofs.Evaluation.Output

namespace LoxLang

namespace Action

variable {α β : Type}

/-- The first action does the same as the second, or it fails for want of calls and the
second writes more. -/
structure Outlasted (first second : Action α) : Prop where
  same (machine : Machine) : second machine = first machine ∨
    ∃ line, (first machine).1 = .fault (Eval.overflow line) ∧
      (first machine).2.output.Grows (second machine).2.output
  grows (machine : Machine) : machine.output.Grows (second machine).2.output

theorem outlasted_of_grows {action : Action α}
    (h : ∀ machine : Machine, machine.output.Grows (action machine).2.output) :
    Outlasted action action :=
  ⟨fun _ => .inl rfl, h⟩

theorem outlasted_of_unchanged {action : Action α}
    (h : ∀ machine : Machine, (action machine).2.output = machine.output) :
    Outlasted action action := by
  apply outlasted_of_grows
  intro machine
  rw [h]
  exact .refl _

theorem outlasted_pure (result : α) : Outlasted (Pure.pure result) (Pure.pure result) :=
  outlasted_of_unchanged fun _ => rfl

theorem outlasted_outOfFuel : Outlasted (outOfFuel : Action α) outOfFuel :=
  outlasted_of_unchanged fun _ => rfl

theorem outlasted_raise (token : Token) (fault : RuntimeFault) :
    Outlasted (raise token fault : Action α) (raise token fault) :=
  outlasted_of_unchanged fun _ => rfl

theorem outlasted_ofExcept (token : Token) (outcome : Except RuntimeFault α) :
    Outlasted (ofExcept token outcome) (ofExcept token outcome) := by
  cases outcome with
  | ok result => exact outlasted_pure result
  | error fault => exact outlasted_raise token fault

theorem outlasted_lookUp (name : Token) : Outlasted (lookUp name) (lookUp name) := by
  apply outlasted_of_unchanged
  intro machine
  rw [lookUp]
  split <;> rfl

theorem outlasted_overwrite (name : Token) (value : Value) :
    Outlasted (overwrite name value) (overwrite name value) := by
  apply outlasted_of_unchanged
  intro machine
  rw [overwrite]
  split <;> rfl

theorem outlasted_declare (name : Token) (value : Value) :
    Outlasted (declare name value) (declare name value) :=
  outlasted_of_unchanged fun _ => rfl

theorem outlasted_makeFunction (name : Token) (parameters : List Token) (body : List Stmt) :
    Outlasted (makeFunction name parameters body) (makeFunction name parameters body) :=
  outlasted_of_unchanged fun _ => rfl

theorem outlasted_runBuiltin (builtin : Builtin) :
    Outlasted (runBuiltin builtin) (runBuiltin builtin) := by
  cases builtin with
  | clock => exact outlasted_of_unchanged fun _ => rfl

theorem outlasted_request {work : Sink → Option SinkFault × Sink}
    (h : ∀ output : Sink, output.Grows (work output).2) :
    Outlasted (request work) (request work) := by
  apply outlasted_of_grows
  intro machine
  have hgrows := h machine.output
  rw [request]
  revert hgrows
  rcases work machine.output with ⟨_ | fault, output⟩ <;> exact id

/-- What has a result with a limit has the same without. -/
theorem Outlasted.value {first second : Action α} (h : Outlasted first second)
    {machine after : Machine} {result : α} (heq : first machine = (.value result, after)) :
    second machine = (.value result, after) := by
  rcases h.same machine with hsame | ⟨line, hfault, _⟩
  · rw [hsame, heq]
  · rw [heq] at hfault
    cases hfault

theorem Outlasted.bind {first second : Action α} {next later : α → Action β}
    (h : Outlasted first second) (hnext : ∀ result, Outlasted (next result) (later result)) :
    Outlasted (first >>= next) (second >>= later) := by
  have hlast (machine : Machine) :
      (second machine).2.output.Grows ((second >>= later) machine).2.output := by
    show Sink.Grows _ (Action.bind second later machine).2.output
    rw [Action.bind]
    rcases second machine with ⟨result | cause | _, after⟩
    · exact (hnext result).grows after
    · exact .refl _
    · exact .refl _
  constructor
  · intro machine
    rcases h.same machine with heq | ⟨line, hfault, hgrows⟩
    · show Action.bind second later machine = Action.bind first next machine ∨ ∃ line,
        (Action.bind first next machine).1 = .fault (Eval.overflow line) ∧
          (Action.bind first next machine).2.output.Grows
            (Action.bind second later machine).2.output
      rw [Action.bind, Action.bind, heq]
      rcases first machine with ⟨result | cause | _, after⟩
      · exact (hnext result).same after
      · exact .inl rfl
      · exact .inl rfl
    · have hfirst : (first >>= next) machine = (.fault (Eval.overflow line), (first machine).2) :=
        bind_of_fault (Prod.ext hfault rfl)
      rw [hfirst]
      exact .inr ⟨line, rfl, hgrows.trans (hlast machine)⟩
  · intro machine
    exact (h.grows machine).trans (hlast machine)

theorem Outlasted.ite {condition : Prop} [Decidable condition]
    {first second third fourth : Action α} (h : Outlasted first second) (hother : Outlasted third fourth) :
    Outlasted (if condition then first else third) (if condition then second else fourth) := by
  split
  · exact h
  · exact hother

theorem Outlasted.inScope {first second : Action α} (h : Outlasted first second)
    (enclosing : ScopeId) (names : List Token) (values : List Value) :
    Outlasted (.inScope enclosing names values first) (.inScope enclosing names values second) := by
  constructor
  · intro machine
    rw [inScope_apply, inScope_apply]
    rcases h.same (machine.enter enclosing names values) with heq | hoverflow
    · rw [heq]
      exact .inl rfl
    · exact .inr hoverflow
  · intro machine
    exact h.grows (machine.enter enclosing names values)

theorem Outlasted.inBlock {first second : Action α} (h : Outlasted first second) :
    Outlasted (.inBlock first) (.inBlock second) := by
  constructor
  · intro machine
    exact (h.inScope machine.current [] []).same machine
  · intro machine
    exact (h.inScope machine.current [] []).grows machine

/-- The limit is where the two may part. -/
theorem Outlasted.inCall {first second : Action α} (h : Outlasted first second) (bound : Nat)
    (paren : Token) : Outlasted (.inCall (some bound) paren first) (.inCall none paren second) := by
  constructor
  · intro machine
    have hgrows := h.grows { machine with callDepth := machine.callDepth + 1 }
    have hnone : (none : Option Nat).any (· ≤ machine.callDepth) = false := rfl
    cases hbound : (some bound).any (· ≤ machine.callDepth) with
    | true =>
        rw [inCall_apply hnone, Action.inCall, hbound]
        exact .inr ⟨paren.line, rfl, hgrows⟩
    | false =>
        rw [inCall_apply hnone, inCall_apply hbound]
        rcases h.same { machine with callDepth := machine.callDepth + 1 } with heq | hoverflow
        · rw [heq]
          exact .inl rfl
        · exact .inr hoverflow
  · intro machine
    exact h.grows { machine with callDepth := machine.callDepth + 1 }

end Action

namespace Eval

open LoxLang.Action

variable (bound : Nat)

/-- With the given fuel, all of evaluation outlasts what it does with a limit. -/
structure OutlastsWith (fuel : Nat) : Prop where
  expression (node : Expr) :
    Outlasted (Eval.expression (some bound) fuel node) (Eval.expression none fuel node)
  each (nodes : List Expr) :
    Outlasted (Eval.each (some bound) fuel nodes) (Eval.each none fuel nodes)
  call (function : Callable) (values : List Value) :
    Outlasted (Eval.call (some bound) fuel function values) (Eval.call none fuel function values)
  statement (node : Stmt) :
    Outlasted (Eval.statement (some bound) fuel node) (Eval.statement none fuel node)
  body (nodes : List Stmt) :
    Outlasted (Eval.body (some bound) fuel nodes) (Eval.body none fuel nodes)

variable {bound} {fuel : Nat}

theorem OutlastsWith.expression_succ (h : OutlastsWith bound fuel) (node : Expr) :
    Outlasted (Eval.expression (some bound) (fuel + 1) node)
      (Eval.expression none (fuel + 1) node) := by
  rw [Eval.expression.eq_def, Eval.expression.eq_def]
  cases node with
  | literal value => exact outlasted_pure _
  | grouping inner => exact h.expression inner
  | unary operator operand =>
      exact (h.expression operand).bind fun value => outlasted_ofExcept operator _
  | binary left operator right =>
      apply (h.expression left).bind
      intro first
      exact (h.expression right).bind fun second => outlasted_ofExcept operator _
  | logical left operator right =>
      apply (h.expression left).bind
      intro value
      exact (outlasted_pure value).ite (h.expression right)
  | «variable» name => exact outlasted_lookUp name
  | assign name value =>
      apply (h.expression value).bind
      intro result
      exact (outlasted_overwrite name result).bind fun _ => outlasted_pure result
  | call callee paren arguments =>
      apply (h.expression callee).bind
      intro value
      cases value.callable? with
      | none => exact outlasted_raise paren .notCallable
      | some function =>
          apply (h.each arguments).bind
          intro values
          exact ((h.call function values).inCall bound paren).ite (outlasted_raise paren _)

theorem OutlastsWith.each_succ (h : OutlastsWith bound fuel) (nodes : List Expr) :
    Outlasted (Eval.each (some bound) (fuel + 1) nodes) (Eval.each none (fuel + 1) nodes) := by
  cases nodes with
  | nil => exact outlasted_pure []
  | cons first others =>
      rw [Eval.each, Eval.each]
      apply (h.expression first).bind
      intro value
      exact (h.each others).bind fun values => outlasted_pure (value :: values)

theorem OutlastsWith.call_succ (h : OutlastsWith bound fuel) (function : Callable)
    (values : List Value) :
    Outlasted (Eval.call (some bound) (fuel + 1) function values)
      (Eval.call none (fuel + 1) function values) := by
  cases function with
  | native builtin identity => exact outlasted_runBuiltin builtin
  | declared function =>
      rw [Eval.call, Eval.call]
      exact ((h.body function.body).inScope function.closure function.parameters values).bind
        fun flow => outlasted_pure flow.result

theorem OutlastsWith.orNil (h : OutlastsWith bound fuel) (node : Option Expr) :
    Outlasted (Eval.orNil (some bound) fuel node) (Eval.orNil none fuel node) := by
  cases node with
  | none => exact outlasted_pure Value.nil
  | some node => exact h.expression node

theorem OutlastsWith.statement_succ (h : OutlastsWith bound fuel) (node : Stmt) :
    Outlasted (Eval.statement (some bound) (fuel + 1) node)
      (Eval.statement none (fuel + 1) node) := by
  have hnormal : Outlasted (Pure.pure Flow.normal) (Pure.pure Flow.normal) :=
    outlasted_pure Flow.normal
  cases node with
  | expression value =>
      rw [Eval.statement, Eval.statement]
      exact (h.expression value).bind fun _ => hnormal
  | print value =>
      rw [Eval.statement, Eval.statement]
      apply (h.expression value).bind
      intro result
      exact (outlasted_request fun output => output.grows_write _).bind fun _ => hnormal
  | var name initial =>
      rw [Eval.statement_var, Eval.statement_var]
      apply (h.orNil initial).bind
      intro value
      exact (outlasted_declare name value).bind fun _ => hnormal
  | block statements => exact (h.body statements).inBlock
  | branch condition consequent alternative =>
      cases alternative with
      | none =>
          rw [Eval.statement, Eval.statement]
          apply (h.expression condition).bind
          intro value
          exact (h.statement consequent).ite hnormal
      | some alternative =>
          rw [Eval.statement, Eval.statement]
          apply (h.expression condition).bind
          intro value
          exact (h.statement consequent).ite (h.statement alternative)
  | loop condition repeated =>
      rw [Eval.statement, Eval.statement]
      apply (h.expression condition).bind
      intro value
      refine Outlasted.ite ?_ hnormal
      apply (h.statement repeated).bind
      intro flow
      cases flow with
      | normal => exact h.statement (.loop condition repeated)
      | returned value => exact outlasted_pure (Flow.returned value)
  | function name parameters statements =>
      rw [Eval.statement, Eval.statement]
      apply (outlasted_makeFunction name parameters statements).bind
      intro function
      exact (outlasted_declare name function).bind fun _ => hnormal
  | ret keyword value =>
      rw [Eval.statement_ret, Eval.statement_ret]
      exact (h.orNil value).bind fun result => outlasted_pure (Flow.returned result)

theorem OutlastsWith.body_succ (h : OutlastsWith bound fuel) (nodes : List Stmt) :
    Outlasted (Eval.body (some bound) (fuel + 1) nodes) (Eval.body none (fuel + 1) nodes) := by
  cases nodes with
  | nil => exact outlasted_pure Flow.normal
  | cons first others =>
      rw [Eval.body, Eval.body]
      apply (h.statement first).bind
      intro flow
      cases flow with
      | normal => exact h.body others
      | returned value => exact outlasted_pure (Flow.returned value)

variable (bound)

/-- All of evaluation outlasts what it does with a limit. -/
theorem outlasts (fuel : Nat) : OutlastsWith bound fuel := by
  induction fuel with
  | zero =>
      constructor
      · intro node
        rw [Eval.expression, Eval.expression]
        exact outlasted_outOfFuel
      · intro nodes
        rw [Eval.each, Eval.each]
        exact outlasted_outOfFuel
      · intro function values
        rw [Eval.call, Eval.call]
        exact outlasted_outOfFuel
      · intro node
        rw [Eval.statement, Eval.statement]
        exact outlasted_outOfFuel
      · intro nodes
        rw [Eval.body, Eval.body]
        exact outlasted_outOfFuel
  | succ fuel ih =>
      exact ⟨ih.expression_succ, ih.each_succ, ih.call_succ, ih.statement_succ, ih.body_succ⟩

theorem outlasts_program (fuel : Nat) (nodes : Program) :
    Outlasted (Eval.program (some bound) fuel nodes) (Eval.program none fuel nodes) := by
  rw [Eval.program, Eval.program]
  exact ((outlasts bound fuel).body nodes).bind fun _ =>
    outlasted_request Sink.grows_flush

/-! ## What happens without a limit -/

variable {bound} {left calls : Nat} {task part : Task} {machine reached start ready : Machine}
  {node : Expr} {paren : Token} {function : Callable} {values : List Value} {nodes : Program}

/-- What is started with a limit is started without one. -/
theorem Starts.unlimited (h : Starts (some bound) fuel task machine part start) :
    Starts none fuel task machine part start := by
  have houtlasts := outlasts bound fuel
  cases h with
  | grouping => exact .grouping
  | operand => exact .operand
  | left => exact .left
  | right h => exact .right ((houtlasts.expression _).value h)
  | deciding => exact .deciding
  | undecided h hdecides => exact .undecided ((houtlasts.expression _).value h) hdecides
  | assigned => exact .assigned
  | callee => exact .callee
  | arguments h hfunction => exact .arguments ((houtlasts.expression _).value h) hfunction
  | called h hfunction hvalues harity _ =>
      exact .called ((houtlasts.expression _).value h) hfunction ((houtlasts.each _).value hvalues)
        harity rfl
  | first => exact .first
  | others h => exact .others ((houtlasts.expression _).value h)
  | execution => exact .execution
  | evaluated => exact .evaluated
  | printed => exact .printed
  | initial => exact .initial
  | block => exact .block
  | condition => exact .condition
  | consequent h hholds => exact .consequent ((houtlasts.expression _).value h) hholds
  | alternative h hholds => exact .alternative ((houtlasts.expression _).value h) hholds
  | test => exact .test
  | round h hholds => exact .round ((houtlasts.expression _).value h) hholds
  | again h hholds hround =>
      exact .again ((houtlasts.expression _).value h) hholds
        ((houtlasts.statement _).value hround)
  | returned => exact .returned
  | head => exact .head
  | rest h => exact .rest ((houtlasts.statement _).value h)

theorem Within.unlimited (h : Within (some bound) fuel task machine left part start calls) :
    Within none fuel task machine left part start calls := by
  induction h with
  | self => exact .self
  | part _ hstarts ih => exact ih.part hstarts.unlimited

theorem Ready.unlimited (h : Ready (some bound) fuel node machine paren function values ready) :
    Ready none fuel node machine paren function values ready := by
  cases h with
  | intro hcallee hfunction hvalues harity =>
      exact .intro (((outlasts bound fuel).expression _).value hcallee) hfunction
        (((outlasts bound fuel).each _).value hvalues) harity

/-- Without a limit a call that is ready is started. -/
theorem Ready.starts (h : Ready none fuel node machine paren function values ready) :
    Starts none fuel (.expression node) machine (.call function values)
      { ready with callDepth := ready.callDepth + 1 } := by
  cases h with
  | intro hcallee hfunction hvalues harity =>
      exact .called hcallee hfunction hvalues harity rfl

/-- With too many calls in progress it is not, and no other call is started in its place. -/
theorem Ready.not_starts {limit : Option Nat}
    (h : Ready limit fuel node machine paren function values ready)
    (hlimit : limit.any (· ≤ ready.callDepth) = true) (called : Callable) (given : List Value) :
    ¬ Starts limit fuel (.expression node) machine (.call called given) start := by
  intro hstarts
  cases h with
  | intro hcallee hfunction hvalues harity =>
      cases hstarts with
      | called hcallee' hfunction' hvalues' _ hlimit' =>
          cases hcallee.symm.trans hcallee'
          cases hvalues.symm.trans hvalues'
          rw [hlimit] at hlimit'
          cases hlimit'

/-! ## Programs -/

/-- The run of the program comes to a call that is ready, with so many calls in progress. -/
structure ComesTo (limit : Option Nat) (fuel : Nat) (nodes : Program) (machine : Machine)
    (calls left : Nat) (node : Expr) (reached : Machine) (paren : Token) (function : Callable)
    (values : List Value) (ready : Machine) : Prop where
  within : Within limit fuel (.body nodes) machine (left + 1) (.expression node) reached calls
  ready : Ready limit left node reached paren function values ready

theorem program_fails_iff {limit : Option Nat} {line : Nat} {after : Machine} :
    program limit fuel nodes machine = (.fault (overflow line), after) ↔
      Task.Fails limit fuel (.body nodes) machine (overflow line) after := by
  constructor
  · intro h
    rw [program] at h
    rcases Action.fault_of_bind h with hbody | ⟨flow, middle, _, hflush⟩
    · exact hbody
    · exact ((calm_request _).not_fault hflush).elim
  · intro h
    rw [program]
    exact Action.bind_of_fault h

/-- Where a call is ready, the machine counts the calls that are in progress. -/
theorem ComesTo.callDepth {limit : Option Nat} (hdepth : machine.callDepth = 0)
    (h : ComesTo limit fuel nodes machine calls left node reached paren function values ready) :
    ready.callDepth = calls := by
  rw [h.ready.callDepth, h.within.callDepth, hdepth, Nat.zero_add]

/-- There no further call is let through. -/
theorem ComesTo.exhausted (hdepth : machine.callDepth = 0)
    (h : ComesTo (some bound) fuel nodes machine bound left node reached paren function values
      ready) : (some bound).any (· ≤ ready.callDepth) = true :=
  decide_eq_true (Nat.le_of_eq (h.callDepth hdepth).symm)

/-- The run with a limit fails for it if it comes to a call with as many in progress. -/
theorem ComesTo.fails (hdepth : machine.callDepth = 0)
    (h : ComesTo (some bound) fuel nodes machine bound left node reached paren function values
      ready) :
    ∃ after, program (some bound) fuel nodes machine = (.fault (overflow paren.line), after) ∧
      after.output = ready.output := by
  obtain ⟨after, hafter, houtput⟩ := h.within.fails (h.ready.fails (h.exhausted hdepth))
  exact ⟨after, program_fails_iff.mpr hafter, houtput⟩

/-- The run without one goes on there, and only adds to what is written. -/
theorem ComesTo.grows (hdepth : machine.callDepth = 0)
    (h : ComesTo (some bound) fuel nodes machine bound left node reached paren function values
      ready) {more : Nat} (hle : fuel ≤ more) :
    ready.output.Grows (program none more nodes machine).2.output := by
  obtain ⟨after, hafter, houtput⟩ := h.fails hdepth
  have hmore := program_of_le hafter (by simp) hle
  rw [← houtput]
  rcases (outlasts_program bound more nodes).same machine with heq | ⟨line, _, hgrows⟩
  · rw [heq, hmore]
    exact .refl _
  · rw [hmore] at hgrows
    exact hgrows

theorem ComesTo.unlimited
    (h : ComesTo (some bound) fuel nodes machine calls left node reached paren function values
      ready) :
    ComesTo none fuel nodes machine calls left node reached paren function values ready :=
  ⟨h.within.unlimited, h.ready.unlimited⟩

/-- It fails for nothing else. -/
theorem exists_comesTo (hdepth : machine.callDepth = 0) {line : Nat} {after : Machine}
    (h : program (some bound) fuel nodes machine = (.fault (overflow line), after)) :
    ∃ left node reached paren function values ready,
      ComesTo (some bound) fuel nodes machine bound left node reached paren function values
        ready ∧ paren.line = line := by
  obtain ⟨left, node, reached, calls, paren, function, values, ready, hwithin, hready, hlimit,
    hline⟩ := (program_fails_iff.mp h).exists_ready
  have hcalls : reached.callDepth = calls := by
    rw [hwithin.callDepth, hdepth, Nat.zero_add]
  have hle : reached.callDepth ≤ bound := hwithin.callDepth_le (hdepth ▸ Nat.zero_le _)
  have hge : bound ≤ ready.callDepth := of_decide_eq_true hlimit
  rw [hready.callDepth] at hge
  obtain rfl : calls = bound := by
    rw [← hcalls]
    exact Nat.le_antisymm hle hge
  exact ⟨left, node, reached, paren, function, values, ready, ⟨hwithin, hready⟩, hline⟩

/-- The machine counts the calls in progress, whenever a part of the program starts and when
it ends in whatever way. If a run without a limit never has more calls in progress than the
limit, the run with the limit is the same.

The run with the limit fails for it exactly if it comes to a call that is ready with as many
calls in progress as the limit allows, and it names the line of that call. No call is started
there, and what was written then is what is written in the end. A run without the limit comes
to the same call on the same machine, and only adds to what is written by then. -/
theorem program_limited (bound fuel : Nat) (nodes : Program) {machine : Machine}
    (hdepth : machine.callDepth = 0) :
    (∀ limit left part start calls, Within limit fuel (.body nodes) machine left part start calls →
      start.callDepth = calls ∧ (part.last limit left start).callDepth = calls) ∧
    (∀ limit, (program limit fuel nodes machine).2.callDepth = 0) ∧
    ((∀ left part start calls, Within none fuel (.body nodes) machine left part start calls →
        calls ≤ bound) →
      program (some bound) fuel nodes machine = program none fuel nodes machine) ∧
    (∀ line,
      (∃ error after, program (some bound) fuel nodes machine = (.fault (.program error), after) ∧
          error.diagnostic = .runtime "Stack overflow." line) ↔
        ∃ left node reached paren function values ready,
          ComesTo (some bound) fuel nodes machine bound left node reached paren function values
            ready ∧ paren.line = line) ∧
    ∀ left node reached paren function values ready,
      ComesTo (some bound) fuel nodes machine bound left node reached paren function values
        ready →
        (∀ called given start,
          ¬ Starts (some bound) left (.expression node) reached (.call called given) start) ∧
        (∃ error after, program (some bound) fuel nodes machine =
            (.fault (.program error), after) ∧
          error.diagnostic = .runtime "Stack overflow." paren.line ∧
          after.output = ready.output) ∧
        ComesTo none fuel nodes machine bound left node reached paren function values ready ∧
        ∀ more ≥ fuel, ready.output.Grows (program none more nodes machine).2.output := by
  refine ⟨?counts, ?ends, ?same, ?fails, ?cut⟩
  case counts =>
    intro limit left part start calls hwithin
    have hstart : start.callDepth = calls := by
      rw [hwithin.callDepth, hdepth, Nat.zero_add]
    exact ⟨hstart, part.restored_last.callDepth.trans hstart⟩
  case ends =>
    intro limit
    have hrestored := (Machine.restoration.keeps_program limit fuel nodes machine trivial).2.1
    exact hrestored.callDepth.trans hdepth
  case same =>
    intro hcalls
    rcases (outlasts_program bound fuel nodes).same machine with heq | ⟨line, hfault, _⟩
    · exact heq.symm
    · obtain ⟨left, node, reached, paren, function, values, ready, hcomes, _⟩ :=
        exists_comesTo hdepth (Prod.ext hfault rfl)
      have hwithin := hcomes.within.unlimited.part hcomes.ready.unlimited.starts
      exact absurd (hcalls _ _ _ _ hwithin) (Nat.not_succ_le_self bound)
  case fails =>
    intro line
    constructor
    · rintro ⟨error, after, hafter, herror⟩
      obtain rfl := RuntimeError.diagnostic_eq_overflow_iff.mp herror
      exact exists_comesTo hdepth hafter
    · rintro ⟨left, node, reached, paren, function, values, ready, hcomes, rfl⟩
      obtain ⟨after, hafter, _⟩ := hcomes.fails hdepth
      exact ⟨_, after, hafter, rfl⟩
  case cut =>
    intro left node reached paren function values ready hcomes
    obtain ⟨after, hafter, houtput⟩ := hcomes.fails hdepth
    refine ⟨?_, ⟨_, after, hafter, rfl, houtput⟩, hcomes.unlimited, ?_⟩
    · intro called given start
      exact hcomes.ready.not_starts (hcomes.exhausted hdepth) called given
    · intro more hle
      exact hcomes.grows hdepth hle

/-- With one call allowed, `fun f() { f(); } f();` fails where `f` calls itself. Without the
limit it comes there too. -/
theorem program_limited_recursive : ∃ left node reached paren function values ready,
    ComesTo none 9
        [.function ⟨.identifier, "f", none, 1⟩ []
          [.expression (.call (.variable ⟨.identifier, "f", none, 1⟩)
            ⟨.rightParen, ")", none, 1⟩ [])],
        .expression (.call (.variable ⟨.identifier, "f", none, 2⟩) ⟨.rightParen, ")", none, 2⟩ [])]
        (.start (.ticking 0) .unlimited) 1 left node reached paren function values ready ∧
      paren.line = 1 := by
  have hdepth : (Machine.start (.ticking 0) .unlimited).callDepth = 0 := rfl
  obtain ⟨_, _, _, hfails, hcut⟩ := program_limited 1 9
    [.function ⟨.identifier, "f", none, 1⟩ []
      [.expression (.call (.variable ⟨.identifier, "f", none, 1⟩)
        ⟨.rightParen, ")", none, 1⟩ [])],
    .expression (.call (.variable ⟨.identifier, "f", none, 2⟩) ⟨.rightParen, ")", none, 2⟩ [])]
    hdepth
  obtain ⟨left, node, reached, paren, function, values, ready, hcomes, hline⟩ :=
    (hfails 1).mp ⟨_, _, rfl, rfl⟩
  obtain ⟨_, _, hunlimited, _⟩ := hcut left node reached paren function values ready hcomes
  exact ⟨left, node, reached, paren, function, values, ready, hunlimited, hline⟩

end Eval

end LoxLang
