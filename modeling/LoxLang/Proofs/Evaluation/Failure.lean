/-
# Where a failure comes from

A task fails if one of the parts it starts does, with the same fault and the output as the
part left it. A task that runs into the limit of calls does so either in a part, or because
it is itself a call that is ready and finds too many calls in progress. So such a failure
can be followed down to the call that it comes from.
-/

import LoxLang.Proofs.Evaluation.CallsInProgress
import LoxLang.Proofs.Evaluation.Sequencing

namespace LoxLang

namespace Action

variable {α β : Type} {machine after middle : Machine} {cause : Fault}

theorem bind_of_fault {first : Action α} {next : α → Action β}
    (h : first machine = (.fault cause, after)) :
    (first >>= next) machine = (.fault cause, after) := by
  show Action.bind first next machine = _
  rw [Action.bind, h]

theorem bind_of_value {first : Action α} {next : α → Action β} {result : α}
    (h : first machine = (.value result, middle)) :
    (first >>= next) machine = next result middle := by
  show Action.bind first next machine = _
  rw [Action.bind, h]

/-- An action fails because its first part does, or after that. -/
theorem fault_of_bind {first : Action α} {next : α → Action β}
    (h : (first >>= next) machine = (.fault cause, after)) :
    first machine = (.fault cause, after) ∨
      ∃ result middle, first machine = (.value result, middle) ∧
        next result middle = (.fault cause, after) := by
  replace h : Action.bind first next machine = _ := h
  rw [Action.bind] at h
  rcases heq : first machine with ⟨result | held | _, middle⟩
  · rw [heq] at h
    exact .inr ⟨result, middle, rfl, h⟩
  · rw [heq] at h
    cases h
    exact .inl rfl
  · rw [heq] at h
    cases h

/-- A call that is let through counts while it lasts. -/
theorem inCall_apply {limit : Option Nat} (hlimit : limit.any (· ≤ machine.callDepth) = false)
    (paren : Token) (action : Action α) :
    inCall limit paren action machine =
      ((action { machine with callDepth := machine.callDepth + 1 }).1,
        { (action { machine with callDepth := machine.callDepth + 1 }).2 with
          callDepth :=
            (action { machine with callDepth := machine.callDepth + 1 }).2.callDepth - 1 }) := by
  rw [inCall, hlimit]
  rfl

end Action

/-! ## Messages -/

namespace RuntimeFault

theorem head?_append_of_some {start rest : String} {first : Char}
    (h : start.toList.head? = some first) : (start ++ rest).toList.head? = some first := by
  rw [String.toList_append, List.head?_append, h, Option.some_or]

/-- Messages that are put together from parts are told apart by how they start. -/
theorem head?_message_undefinedVariable (name : String) :
    (message (.undefinedVariable name)).toList.head? = some 'U' :=
  head?_append_of_some (head?_append_of_some rfl)

theorem head?_message_wrongArity (expected given : Nat) :
    (message (.wrongArity expected given)).toList.head? = some 'E' :=
  head?_append_of_some (head?_append_of_some (head?_append_of_some (head?_append_of_some rfl)))

/-- Only one fault is worded like the one for want of calls. -/
theorem message_eq_overflow_iff (fault : RuntimeFault) :
    fault.message = "Stack overflow." ↔ fault = .stackOverflow := by
  have hother {first : Char} (hne : first ≠ 'S')
      (hfirst : fault.message.toList.head? = some first) : fault.message ≠ "Stack overflow." := by
    intro heq
    rw [heq] at hfirst
    exact hne (Option.some.inj hfirst).symm
  cases fault with
  | undefinedVariable name =>
      exact iff_of_false (hother (by decide) (head?_message_undefinedVariable name)) (by simp)
  | wrongArity expected given =>
      exact iff_of_false (hother (by decide) (head?_message_wrongArity expected given)) (by simp)
  | stackOverflow => exact iff_of_true rfl rfl
  | _ => exact iff_of_false (by decide) (by simp)

end RuntimeFault

theorem RuntimeError.diagnostic_eq_overflow_iff {error : RuntimeError} {line : Nat} :
    error.diagnostic = .runtime "Stack overflow." line ↔ error = ⟨.stackOverflow, line⟩ := by
  obtain ⟨fault, held⟩ := error
  rw [diagnostic, Diagnostic.runtime.injEq, RuntimeFault.message_eq_overflow_iff,
    RuntimeError.mk.injEq]

namespace Eval

variable {limit : Option Nat} {fuel left calls : Nat} {task part : Task}
  {machine after reached start : Machine} {cause : Fault}

/-- The task ends with the fault and leaves the second machine. -/
def Task.Fails (limit : Option Nat) (fuel : Nat) : Task → Machine → Fault → Machine → Prop
  | .expression node, machine, cause, after =>
    Eval.expression limit fuel node machine = (.fault cause, after)
  | .each nodes, machine, cause, after => Eval.each limit fuel nodes machine = (.fault cause, after)
  | .call function values, machine, cause, after =>
    Eval.call limit fuel function values machine = (.fault cause, after)
  | .statement node, machine, cause, after =>
    Eval.statement limit fuel node machine = (.fault cause, after)
  | .body nodes, machine, cause, after => Eval.body limit fuel nodes machine = (.fault cause, after)

/-! ## From the part to the whole -/

theorem inScope_of_fault {α : Type} {enclosing : ScopeId} {names : List Token}
    {values : List Value} {action : Action α}
    (h : action (machine.enter enclosing names values) = (.fault cause, after)) :
    Action.inScope enclosing names values action machine = (.fault cause, machine.leave after) := by
  rw [Action.inScope_apply, h]

theorem inCall_of_fault {α : Type} {paren : Token} {action : Action α}
    (hlimit : limit.any (· ≤ machine.callDepth) = false)
    (h : action { machine with callDepth := machine.callDepth + 1 } = (.fault cause, after)) :
    Action.inCall limit paren action machine =
      (.fault cause, { after with callDepth := after.callDepth - 1 }) := by
  rw [Action.inCall_apply hlimit, h]

/-- A task fails if a part of it does, and what is written is the same. -/
theorem Starts.fails (h : Starts limit fuel task machine part start)
    (hpart : part.Fails limit fuel start cause after) :
    ∃ last, task.Fails limit (fuel + 1) machine cause last ∧ last.output = after.output := by
  cases h with
  | grouping => exact ⟨after, hpart, rfl⟩
  | operand => exact ⟨after, Action.bind_of_fault hpart, rfl⟩
  | left => exact ⟨after, Action.bind_of_fault hpart, rfl⟩
  | right h => exact ⟨after, (Action.bind_of_value h).trans (Action.bind_of_fault hpart), rfl⟩
  | deciding => exact ⟨after, Action.bind_of_fault hpart, rfl⟩
  | undecided h hdecides =>
      refine ⟨after, (Action.bind_of_value h).trans ?_, rfl⟩
      rw [hdecides]
      exact hpart
  | assigned => exact ⟨after, Action.bind_of_fault hpart, rfl⟩
  | callee => exact ⟨after, Action.bind_of_fault hpart, rfl⟩
  | arguments h hfunction =>
      refine ⟨after, (Action.bind_of_value h).trans ?_, rfl⟩
      rw [hfunction]
      exact Action.bind_of_fault hpart
  | called h hfunction hvalues harity hlimit =>
      refine ⟨{ after with callDepth := after.callDepth - 1 },
        (Action.bind_of_value h).trans ?_, rfl⟩
      rw [hfunction]
      refine (Action.bind_of_value hvalues).trans ?_
      rw [if_pos harity]
      exact inCall_of_fault hlimit hpart
  | first => exact ⟨after, Action.bind_of_fault hpart, rfl⟩
  | others h => exact ⟨after, (Action.bind_of_value h).trans (Action.bind_of_fault hpart), rfl⟩
  | execution => exact ⟨_, Action.bind_of_fault (inScope_of_fault hpart), rfl⟩
  | evaluated => exact ⟨after, Action.bind_of_fault hpart, rfl⟩
  | printed => exact ⟨after, Action.bind_of_fault hpart, rfl⟩
  | initial => exact ⟨after, Action.bind_of_fault hpart, rfl⟩
  | block => exact ⟨_, inScope_of_fault hpart, rfl⟩
  | condition => exact ⟨after, Action.bind_of_fault hpart, rfl⟩
  | consequent h hholds =>
      refine ⟨after, (Action.bind_of_value h).trans ?_, rfl⟩
      rw [if_pos hholds]
      exact hpart
  | alternative h hholds =>
      refine ⟨after, (Action.bind_of_value h).trans ?_, rfl⟩
      rw [hholds]
      exact hpart
  | test => exact ⟨after, Action.bind_of_fault hpart, rfl⟩
  | round h hholds =>
      refine ⟨after, (Action.bind_of_value h).trans ?_, rfl⟩
      rw [if_pos hholds]
      exact Action.bind_of_fault hpart
  | again h hholds hround =>
      refine ⟨after, (Action.bind_of_value h).trans ?_, rfl⟩
      rw [if_pos hholds]
      exact (Action.bind_of_value hround).trans hpart
  | returned => exact ⟨after, Action.bind_of_fault hpart, rfl⟩
  | head => exact ⟨after, Action.bind_of_fault hpart, rfl⟩
  | rest h => exact ⟨after, (Action.bind_of_value h).trans hpart, rfl⟩

/-! ## From the whole to the call -/

/-- The failure for want of calls at a line. -/
abbrev overflow (line : Nat) : Fault :=
  .program ⟨.stackOverflow, line⟩

/-- The action never fails for want of calls. -/
def Calm {α : Type} (action : Action α) : Prop :=
  ∀ machine line, (action machine).1 ≠ .fault (overflow line)

section

variable {α : Type}

theorem Calm.not_fault {action : Action α} (h : Calm action) {line : Nat}
    (heq : action machine = (.fault (overflow line), after)) : False :=
  h machine line (congrArg Prod.fst heq)

theorem calm_of_value {action : Action α}
    (h : ∀ machine, ∃ result, (action machine).1 = .value result) : Calm action := by
  intro machine line heq
  obtain ⟨result, hresult⟩ := h machine
  rw [hresult] at heq
  cases heq

theorem calm_raise {token : Token} {fault : RuntimeFault} (h : fault ≠ .stackOverflow) :
    Calm (Action.raise token fault : Action α) := by
  intro machine line heq
  injection heq with hcause
  injection hcause with herror
  injection herror with hfault
  exact h hfault

theorem calm_ofExcept {token : Token} {outcome : Except RuntimeFault α}
    (h : outcome ≠ .error .stackOverflow) : Calm (Action.ofExcept token outcome) := by
  cases outcome with
  | ok result => exact calm_of_value fun _ => ⟨result, rfl⟩
  | error fault => exact calm_raise fun heq => h (congrArg _ heq)

theorem calm_lookUp (name : Token) : Calm (Action.lookUp name) := by
  intro machine line heq
  rw [Action.lookUp] at heq
  split at heq
  · cases heq
  · cases heq
  · cases heq

theorem calm_overwrite (name : Token) (value : Value) : Calm (Action.overwrite name value) := by
  intro machine line heq
  rw [Action.overwrite] at heq
  split at heq
  · cases heq
  · cases heq
  · cases heq

theorem calm_request (work : Sink → Option SinkFault × Sink) : Calm (Action.request work) := by
  intro machine line heq
  rw [Action.request] at heq
  split at heq
  · cases heq
  · cases heq

end

theorem applyUnary_ne_overflow (operator : TokenKind) (operand : Value) :
    operand.applyUnary operator ≠ .error .stackOverflow := by
  unfold Value.applyUnary
  split
  · cases operand <;> intro h <;> cases h
  · intro h
    cases h
  · intro h
    cases h

theorem applyBinary_ne_overflow (operator : TokenKind) (left right : Value) :
    left.applyBinary operator right ≠ .error .stackOverflow := by
  unfold Value.applyBinary
  split
  all_goals cases left <;> cases right <;> intro h <;> cases h

/-- The failure for want of calls at the line comes from a part that the task starts, or the
task is a call that is ready while as many calls are in progress as the limit allows. -/
inductive Traced (limit : Option Nat) (fuel : Nat) (line : Nat) : Task → Machine → Prop
  | part {task part : Task} {machine start last : Machine} :
      Starts limit fuel task machine part start →
      part.Fails limit fuel start (overflow line) last → Traced limit fuel line task machine
  | call {node : Expr} {machine ready : Machine} {paren : Token} {function : Callable}
      {values : List Value} :
      Ready limit fuel node machine paren function values ready →
      limit.any (· ≤ ready.callDepth) = true → paren.line = line →
      Traced limit fuel line (.expression node) machine

variable {line : Nat}

theorem fault_of_inCall {α : Type} {paren : Token} {action : Action α}
    (h : Action.inCall limit paren action machine = (.fault cause, after)) :
    (limit.any (· ≤ machine.callDepth) = true ∧ cause = overflow paren.line) ∨
      limit.any (· ≤ machine.callDepth) = false ∧
        ∃ inner, action { machine with callDepth := machine.callDepth + 1 } =
          (.fault cause, inner) := by
  cases hlimit : limit.any (· ≤ machine.callDepth) with
  | true =>
      rw [Action.inCall, hlimit] at h
      cases h
      exact .inl ⟨rfl, rfl⟩
  | false =>
      rw [Action.inCall_apply hlimit] at h
      exact .inr ⟨rfl, _, Prod.ext (Prod.mk.inj h).1 rfl⟩

theorem fault_of_inScope {α : Type} {enclosing : ScopeId} {names : List Token}
    {values : List Value} {action : Action α}
    (h : Action.inScope enclosing names values action machine = (.fault cause, after)) :
    ∃ inner, action (machine.enter enclosing names values) = (.fault cause, inner) := by
  rw [Action.inScope_apply] at h
  exact ⟨_, Prod.ext (Prod.mk.inj h).1 rfl⟩

theorem traced_call {callee : Expr} {paren : Token} {arguments : List Expr}
    (h : Task.Fails limit (fuel + 1) (.expression (.call callee paren arguments)) machine
      (overflow line) after) :
    Traced limit fuel line (.expression (.call callee paren arguments)) machine := by
  rcases Action.fault_of_bind h with hcallee | ⟨value, middle, hcallee, h⟩
  · exact .part .callee hcallee
  cases hfunction : value.callable? with
  | none =>
      rw [hfunction] at h
      exact ((calm_raise (by decide)).not_fault h).elim
  | some function =>
      rw [hfunction] at h
      rcases Action.fault_of_bind h with harguments | ⟨values, ready, hvalues, h⟩
      · exact .part (.arguments hcallee hfunction) harguments
      by_cases harity : values.length = function.arity
      · rw [if_pos harity] at h
        rcases fault_of_inCall h with ⟨hlimit, hcause⟩ | ⟨hlimit, inner, hcalled⟩
        · cases hcause
          exact .call (.intro hcallee hfunction hvalues harity) hlimit rfl
        · exact .part (.called hcallee hfunction hvalues harity hlimit) hcalled
      · rw [if_neg harity] at h
        exact ((calm_raise (by simp)).not_fault h).elim

theorem traced_expression {node : Expr}
    (h : Task.Fails limit (fuel + 1) (.expression node) machine (overflow line) after) :
    Traced limit fuel line (.expression node) machine := by
  cases node with
  | literal value => cases h
  | grouping inner => exact .part .grouping h
  | unary operator operand =>
      rcases Action.fault_of_bind h with hoperand | ⟨value, middle, _, h⟩
      · exact .part .operand hoperand
      · exact ((calm_ofExcept (applyUnary_ne_overflow _ _)).not_fault h).elim
  | binary left operator right =>
      rcases Action.fault_of_bind h with hleft | ⟨value, middle, hleft, h⟩
      · exact .part .left hleft
      rcases Action.fault_of_bind h with hright | ⟨second, last, _, h⟩
      · exact .part (.right hleft) hright
      · exact ((calm_ofExcept (applyBinary_ne_overflow _ _ _)).not_fault h).elim
  | logical left operator right =>
      rcases Action.fault_of_bind h with hleft | ⟨value, middle, hleft, h⟩
      · exact .part .deciding hleft
      cases hdecides : value.decides operator.kind with
      | true =>
          rw [hdecides] at h
          cases h
      | false =>
          rw [hdecides] at h
          exact .part (.undecided hleft hdecides) h
  | «variable» name => exact ((calm_lookUp name).not_fault h).elim
  | assign name value =>
      rcases Action.fault_of_bind h with hvalue | ⟨result, middle, _, h⟩
      · exact .part .assigned hvalue
      rcases Action.fault_of_bind h with hassigned | ⟨_, last, _, h⟩
      · exact ((calm_overwrite name result).not_fault hassigned).elim
      · cases h
  | call callee paren arguments => exact traced_call h

theorem traced_each {nodes : List Expr}
    (h : Task.Fails limit (fuel + 1) (.each nodes) machine (overflow line) after) :
    Traced limit fuel line (.each nodes) machine := by
  cases nodes with
  | nil => cases h
  | cons first others =>
      rcases Action.fault_of_bind h with hfirst | ⟨value, middle, hfirst, h⟩
      · exact .part .first hfirst
      rcases Action.fault_of_bind h with hothers | ⟨values, last, _, h⟩
      · exact .part (.others hfirst) hothers
      · cases h

theorem traced_application {function : Callable} {values : List Value}
    (h : Task.Fails limit (fuel + 1) (.call function values) machine (overflow line) after) :
    Traced limit fuel line (.call function values) machine := by
  cases function with
  | native builtin identity =>
      cases builtin with
      | clock => cases h
  | declared function =>
      rcases Action.fault_of_bind h with hbody | ⟨flow, middle, _, h⟩
      · obtain ⟨inner, hinner⟩ := fault_of_inScope hbody
        exact .part .execution hinner
      · cases h

theorem traced_statement {node : Stmt}
    (h : Task.Fails limit (fuel + 1) (.statement node) machine (overflow line) after) :
    Traced limit fuel line (.statement node) machine := by
  cases node with
  | expression value =>
      rcases Action.fault_of_bind h with hvalue | ⟨result, middle, _, h⟩
      · exact .part .evaluated hvalue
      · cases h
  | print value =>
      rcases Action.fault_of_bind h with hvalue | ⟨result, middle, _, h⟩
      · exact .part .printed hvalue
      rcases Action.fault_of_bind h with hprint | ⟨_, last, _, h⟩
      · exact ((calm_request _).not_fault hprint).elim
      · cases h
  | var name initial =>
      cases initial with
      | none => cases h
      | some initial =>
          rcases Action.fault_of_bind h with hinitial | ⟨value, middle, _, h⟩
          · exact .part .initial hinitial
          · cases h
  | block statements =>
      obtain ⟨inner, hinner⟩ := fault_of_inScope h
      exact .part .block hinner
  | branch condition consequent alternative =>
      rcases Action.fault_of_bind h with hcondition | ⟨value, middle, hcondition, h⟩
      · exact .part .condition hcondition
      cases hholds : value.isTruthy with
      | true =>
          rw [if_pos hholds] at h
          exact .part (.consequent hcondition hholds) h
      | false =>
          rw [hholds] at h
          cases alternative with
          | none => cases h
          | some alternative => exact .part (.alternative hcondition hholds) h
  | loop condition repeated =>
      rcases Action.fault_of_bind h with hcondition | ⟨value, middle, hcondition, h⟩
      · exact .part .test hcondition
      cases hholds : value.isTruthy with
      | true =>
          rw [if_pos hholds] at h
          rcases Action.fault_of_bind h with hround | ⟨flow, later, hround, h⟩
          · exact .part (.round hcondition hholds) hround
          cases flow with
          | normal => exact .part (.again hcondition hholds hround) h
          | returned result => cases h
      | false =>
          rw [hholds] at h
          cases h
  | function name parameters statements => cases h
  | ret keyword value =>
      cases value with
      | none => cases h
      | some value =>
          rcases Action.fault_of_bind h with hvalue | ⟨result, middle, _, h⟩
          · exact .part .returned hvalue
          · cases h

theorem traced_body {nodes : List Stmt}
    (h : Task.Fails limit (fuel + 1) (.body nodes) machine (overflow line) after) :
    Traced limit fuel line (.body nodes) machine := by
  cases nodes with
  | nil => cases h
  | cons first others =>
      rcases Action.fault_of_bind h with hfirst | ⟨flow, middle, hfirst, h⟩
      · exact .part .head hfirst
      cases flow with
      | normal => exact .part (.rest hfirst) h
      | returned value => cases h

/-- A task that fails for want of calls fails so in a part, or is the call itself. -/
theorem Task.Fails.traced
    (h : task.Fails limit (fuel + 1) machine (overflow line) after) :
    Traced limit fuel line task machine := by
  cases task with
  | expression node => exact traced_expression h
  | each nodes => exact traced_each h
  | call function values => exact traced_application h
  | statement node => exact traced_statement h
  | body nodes => exact traced_body h

theorem Task.not_fails_zero : ¬ task.Fails limit 0 machine cause after := by
  intro h
  cases task <;> cases h

/-- A failure for want of calls comes from a call that was ready while as many calls were in
progress as the limit allows. -/
theorem Task.Fails.exists_ready
    (h : task.Fails limit fuel machine (overflow line) after) :
    ∃ left node reached calls paren function values ready,
      Within limit fuel task machine (left + 1) (.expression node) reached calls ∧
      Ready limit left node reached paren function values ready ∧
      limit.any (· ≤ ready.callDepth) = true ∧ paren.line = line := by
  induction fuel generalizing task machine after with
  | zero => exact (not_fails_zero h).elim
  | succ fuel ih =>
      cases h.traced with
      | part hstarts hpart =>
          obtain ⟨left, node, reached, calls, paren, function, values, ready, hwithin, hready⟩ :=
            ih hpart
          exact ⟨left, node, reached, _, paren, function, values, ready, hstarts.within hwithin,
            hready⟩
      | call hready hlimit hline =>
          exact ⟨fuel, _, _, 0, _, _, _, _, .self, hready, hlimit, hline⟩

/-- The failure of whatever happens during a task is the failure of the task. -/
theorem Within.fails (h : Within limit fuel task machine left part start calls)
    (hpart : part.Fails limit left start cause after) :
    ∃ last, task.Fails limit fuel machine cause last ∧ last.output = after.output := by
  induction h generalizing after with
  | self => exact ⟨after, hpart, rfl⟩
  | part _ hstarts ih =>
      obtain ⟨middle, houter, houtput⟩ := hstarts.fails hpart
      obtain ⟨last, hlast, hwritten⟩ := ih houter
      exact ⟨last, hlast, hwritten.trans houtput⟩

/-- A call that is ready while too many calls are in progress fails at once. -/
theorem Ready.fails {node : Expr} {paren : Token} {function : Callable} {values : List Value}
    {ready : Machine} (h : Ready limit fuel node machine paren function values ready)
    (hlimit : limit.any (· ≤ ready.callDepth) = true) :
    Task.Fails limit (fuel + 1) (.expression node) machine (overflow paren.line) ready := by
  cases h with
  | intro hcallee hfunction hvalues harity =>
      refine (Action.bind_of_value hcallee).trans ?_
      rw [hfunction]
      refine (Action.bind_of_value hvalues).trans ?_
      rw [if_pos harity, Action.inCall, hlimit]
      rfl

end Eval

end LoxLang
