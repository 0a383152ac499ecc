/-
# Accounts of an evaluation

An account says what is known at some point of a run: the identity of the next function, and
the callables that have occurred. It covers a machine that stores no other callables and makes
its next function with that identity.

What a task does is said here once. It makes functions of its own, which only a declaration
does, and hands the account from part to part: each part starts on a machine that is covered by
then, with no callables passed to it but known ones, and adds what it stores and results in.
What the task itself leaves and results in is known after the last part.
-/

import LoxLang.Proofs.Evaluation.Executions

namespace LoxLang

/-- Some live scope of the machine binds a name to the callable. -/
def Machine.Stores (machine : Machine) (function : Callable) : Prop :=
  machine.environment.Stores (.callable function)

/-- The values that an exit has to show. -/
def Exit.values {ε α : Type} (reveal : α → List Value) : Exit ε α → List Value
  | .value result => reveal result
  | .fault _ => []
  | .outOfFuel => []

namespace Eval

/-- The task is given the callable, to call it or as an argument. -/
inductive Task.Passes : Task → Callable → Prop
  | function {function : Callable} {values : List Value} : Passes (.call function values) function
  | argument {function argument : Callable} {values : List Value} :
      .callable argument ∈ values → Passes (.call function values) argument

/-- The values that the task results in, none unless it has a result. -/
def Task.answers (limit : Option Nat) (fuel : Nat) : Task → Machine → List Value
  | .expression node, machine => (Eval.expression limit fuel node machine).1.values ([·])
  | .each nodes, machine => (Eval.each limit fuel nodes machine).1.values id
  | .call function values, machine => (Eval.call limit fuel function values machine).1.values ([·])
  | .statement node, machine => (Eval.statement limit fuel node machine).1.values ([·.result])
  | .body nodes, machine => (Eval.body limit fuel nodes machine).1.values ([·.result])

/-! ## Accounts -/

/-- What is known at some point of a run. -/
structure Account where
  /-- The identity of the next function made. -/
  supply : Identity
  /-- The callables that have occurred. -/
  known : Callable → Prop

namespace Account

/-- The account once the functions have been made. -/
def extend (account : Account) (functions : List Function) : Account where
  supply := account.supply + functions.length
  known function := account.known function ∨ ∃ made ∈ functions, function = .declared made

/-- The account says of the machine all there is to say. -/
structure Covers (account : Account) (machine : Machine) : Prop where
  supply : machine.supply = account.supply
  stored {function : Callable} : machine.Stores function → account.known function

/-- The account is right of how an action ended. -/
structure Explains {α : Type} (account : Account) (reveal : α → List Value)
    (outcome : Exit Fault α × Machine) : Prop where
  covers : account.Covers outcome.2
  values {function : Callable} :
    .callable function ∈ outcome.1.values reveal → account.known function

/-- All that the account knows is known to the other, and both have the same identity next. -/
structure Within (account other : Account) : Prop where
  supply : account.supply = other.supply
  known {function : Callable} : account.known function → other.known function

variable (limit : Option Nat) (fuel : Nat)

/-- The account once a part is over. -/
def after (account : Account) (part : Task) (start : Machine) : Account where
  supply := (part.last limit fuel start).supply
  known function := account.known function ∨ (part.last limit fuel start).Stores function ∨
    .callable function ∈ part.answers limit fuel start

/-- The parts are started one after the other, each on a machine that the account covers by
then. The second account is the one after the last. -/
inductive Chain : Account → List (Task × Machine) → Account → Prop
  | nil {account : Account} : Chain account [] account
  | cons {account last : Account} {part : Task} {start : Machine} {parts : List (Task × Machine)} :
      account.Covers start →
      (∀ {function : Callable}, part.Passes function → account.known function) →
      Chain (account.after limit fuel part start) parts last →
      Chain account ((part, start) :: parts) last

/-- The parts lead from the account to one that is right of how the action ended. -/
def Leads {α : Type} (account : Account) (parts : List (Task × Machine)) (reveal : α → List Value)
    (outcome : Exit Fault α × Machine) : Prop :=
  ∃ last, Chain limit fuel account parts last ∧ last.Explains reveal outcome

variable {limit fuel} {account middle last : Account} {machine start inner : Machine}
  {function : Callable} {parts others : List (Task × Machine)} {value : Value} {values : List Value}

@[simp]
theorem extend_nil : account.extend [] = account := by
  simp [extend]

theorem Chain.append (h : Chain limit fuel account parts middle)
    (hothers : Chain limit fuel middle others last) :
    Chain limit fuel account (parts ++ others) last := by
  induction h with
  | nil => exact hothers
  | cons hcovers hpasses _ ih => exact .cons hcovers hpasses (ih hothers)

theorem Chain.known (h : Chain limit fuel account parts last) (hknown : account.known function) :
    last.known function := by
  induction h with
  | nil => exact hknown
  | cons _ _ _ ih => exact ih (.inl hknown)

/-! ## Machines changed -/

theorem Covers.define (h : account.Covers machine)
    (hvalue : ∀ {function}, value = .callable function → account.known function) (scope : ScopeId)
    (name : String) : account.Covers
      { machine with environment := machine.environment.define scope name value } where
  supply := h.supply
  stored hstores := by
    rcases hstores.of_define with hstored | heq
    · exact h.stored hstored
    · exact hvalue heq.symm

theorem Covers.enter (h : account.Covers machine)
    (hvalues : ∀ {function}, .callable function ∈ values → account.known function)
    (enclosing : ScopeId) (names : List Token) :
    account.Covers (machine.enter enclosing names values) where
  supply := h.supply
  stored hstores := by
    rcases hstores.of_defineAll with hstored | hmem
    · exact h.stored hstored.of_push
    · exact hvalues hmem

theorem Covers.leave (h : account.Covers inner) (machine : Machine) :
    account.Covers (machine.leave inner) where
  supply := h.supply
  stored hstores := h.stored hstores.of_pop

theorem Covers.searched {scope : ScopeId} {name : String} (h : account.Covers machine)
    (hfound : machine.environment.search machine.current name = .found scope (.callable function)) :
    account.known function :=
  h.stored (Environment.stores_of_searchWithin hfound)

/-! ## Actions accounted for -/

variable {α β : Type} {reveal : α → List Value} {uncover : β → List Value}

/-- An action without parts is accounted for by what is known already. -/
theorem Covers.quiet {exit : Exit Fault α} (h : account.Covers machine)
    (hvalues : ∀ {function}, .callable function ∈ exit.values reveal → account.known function) :
    Leads limit fuel account [] reveal (exit, machine) :=
  ⟨account, .nil, h, hvalues⟩

theorem Leads.bind {first : Action α} {next : α → Action β}
    {later : α → Machine → List (Task × Machine)}
    (hfirst : Leads limit fuel account parts reveal (first machine))
    (hnext : ∀ result after middle, middle.Covers after →
      (∀ {function}, account.known function → middle.known function) →
      (∀ {function}, .callable function ∈ reveal result → middle.known function) →
      Leads limit fuel middle (later result after) uncover (next result after)) :
    Leads limit fuel account (parts ++ following later (first machine)) uncover
      ((first >>= next) machine) := by
  obtain ⟨middle, hchain, hcovers, hvalues⟩ := hfirst
  show Leads limit fuel account _ uncover (Action.bind first next machine)
  rw [Action.bind]
  revert hcovers hvalues
  rcases first machine with ⟨result | cause | _, after⟩
  · intro hcovers hvalues
    obtain ⟨last, hothers, hexplains⟩ := hnext result after middle hcovers hchain.known hvalues
    exact ⟨last, hchain.append hothers, hexplains⟩
  · intro hcovers _
    refine ⟨middle, ?_, hcovers, fun hmem => by cases hmem⟩
    rw [following, List.append_nil]
    exact hchain
  · intro hcovers _
    refine ⟨middle, ?_, hcovers, fun hmem => by cases hmem⟩
    rw [following, List.append_nil]
    exact hchain

/-- What needs no parts of its own may follow. -/
theorem Leads.bind_quiet {first : Action α} {next : α → Action β}
    (hfirst : Leads limit fuel account parts reveal (first machine))
    (hnext : ∀ result after middle, middle.Covers after →
      (∀ {function}, account.known function → middle.known function) →
      (∀ {function}, .callable function ∈ reveal result → middle.known function) →
      Leads limit fuel middle [] uncover (next result after)) :
    Leads limit fuel account parts uncover ((first >>= next) machine) := by
  have hbind : Leads limit fuel account (parts ++ following (fun _ _ => []) (first machine)) uncover
      ((first >>= next) machine) := hfirst.bind hnext
  have hnone : following (fun _ _ => ([] : List (Task × Machine))) (first machine) = [] := by
    rcases first machine with ⟨result | cause | _, after⟩ <;> rfl
  rw [hnone, List.append_nil] at hbind
  exact hbind

theorem Covers.done {result : α} (h : account.Covers machine)
    (hvalues : ∀ {function}, .callable function ∈ reveal result → account.known function) :
    Leads limit fuel account [] reveal ((pure result : Action α) machine) :=
  h.quiet hvalues

theorem Covers.raise {token : Token} {fault : RuntimeFault} (h : account.Covers machine) :
    Leads limit fuel account [] reveal ((Action.raise token fault : Action α) machine) :=
  h.quiet fun hmem => by cases hmem

/-- A value that is no function adds none. -/
theorem Covers.plain {result : Value} (h : account.Covers machine)
    (hplain : result.callable? = none) :
    Leads limit fuel account [] ([·]) ((pure result : Action Value) machine) := by
  apply h.done
  intro function hmem
  rw [← List.mem_singleton.mp hmem] at hplain
  cases hplain

/-- An operation results in no function. -/
theorem Covers.ofExcept {token : Token} {outcome : Except RuntimeFault Value}
    (h : account.Covers machine)
    (hplain : ∀ result, outcome = .ok result → result.callable? = none) :
    Leads limit fuel account [] ([·]) (Action.ofExcept token outcome machine) := by
  cases outcome with
  | error fault => exact h.raise
  | ok result => exact h.plain (hplain result rfl)

theorem Covers.lookUp {name : Token} (h : account.Covers machine) :
    Leads limit fuel account [] ([·]) (Action.lookUp name machine) := by
  rw [Action.lookUp]
  split
  next scope value hfound =>
    apply h.quiet
    intro function hmem
    rw [← List.mem_singleton.mp hmem] at hfound
    exact h.searched hfound
  next => exact h.raise
  next => exact h.quiet fun hmem => by cases hmem

theorem Covers.overwrite {name : Token} (h : account.Covers machine)
    (hvalue : ∀ {function}, value = .callable function → account.known function) :
    Leads limit fuel account [] (fun _ => []) (Action.overwrite name value machine) := by
  rw [Action.overwrite]
  split
  next scope held hfound =>
    exact (h.define hvalue scope name.lexeme).quiet fun hmem => by cases hmem
  next => exact h.raise
  next => exact h.quiet fun hmem => by cases hmem

theorem Covers.declare {name : Token} (h : account.Covers machine)
    (hvalue : ∀ {function}, value = .callable function → account.known function) :
    Leads limit fuel account [] (fun _ => []) (Action.declare name value machine) :=
  (h.define hvalue machine.current name.lexeme).quiet fun hmem => by cases hmem

theorem Covers.request {work : Sink → Option SinkFault × Sink} (h : account.Covers machine) :
    Leads limit fuel account [] (fun _ => []) (Action.request work machine) := by
  rw [Action.request]
  split
  next output _ => exact Covers.quiet ⟨h.supply, h.stored⟩ fun hmem => by cases hmem
  next fault output _ => exact Covers.quiet ⟨h.supply, h.stored⟩ fun hmem => by cases hmem

theorem Covers.runBuiltin {builtin : Builtin} (h : account.Covers machine) :
    Leads limit fuel account [] ([·]) (Action.runBuiltin builtin machine) := by
  cases builtin with
  | clock =>
      have hlater : account.Covers { machine with clock := machine.clock.read } :=
        ⟨h.supply, h.stored⟩
      exact hlater.plain rfl

/-- Leaving a scope forgets what it bound and nothing else. -/
theorem Leads.inScope {action : Action α} {enclosing : ScopeId} {names : List Token}
    (h : Leads limit fuel account parts reveal (action (machine.enter enclosing names values))) :
    Leads limit fuel account parts reveal
      (Action.inScope enclosing names values action machine) := by
  obtain ⟨last, hchain, hcovers, hvalues⟩ := h
  exact ⟨last, hchain, hcovers.leave machine, hvalues⟩

/-- An action is accounted for if it is as a call, unless it is not begun. -/
theorem Covers.inCall {action : Action α} {paren : Token} (h : account.Covers machine)
    (haction : account.Covers { machine with callDepth := machine.callDepth + 1 } →
      Leads limit fuel account parts reveal
        (action { machine with callDepth := machine.callDepth + 1 })) :
    Leads limit fuel account (if limit.any (· ≤ machine.callDepth) = false then parts else [])
      reveal (Action.inCall limit paren action machine) := by
  rw [Action.inCall]
  cases limit.any (· ≤ machine.callDepth) with
  | true => exact h.raise
  | false =>
      obtain ⟨last, hchain, hcovers, hvalues⟩ := haction ⟨h.supply, h.stored⟩
      exact ⟨last, hchain, ⟨hcovers.supply, hcovers.stored⟩, hvalues⟩

/-! ## The parts of a task -/

/-- A part is accounted for by what it leaves and results in. -/
theorem Covers.part {task : Task} {outcome : Exit Fault α × Machine} (h : account.Covers machine)
    (hpasses : ∀ {function}, task.Passes function → account.known function)
    (hlast : task.last limit fuel machine = outcome.2)
    (hanswers : task.answers limit fuel machine = outcome.1.values reveal) :
    Leads limit fuel account [(task, machine)] reveal outcome := by
  refine ⟨_, .cons h hpasses .nil, ⟨?_, fun hstores => ?_⟩, fun hmem => ?_⟩
  · rw [← hlast]
    rfl
  · rw [← hlast] at hstores
    exact .inr (.inl hstores)
  · rw [← hanswers] at hmem
    exact .inr (.inr hmem)

theorem Covers.expression (h : account.Covers machine) (node : Expr) :
    Leads limit fuel account [(.expression node, machine)] ([·])
      (Eval.expression limit fuel node machine) :=
  h.part (fun hpasses => by cases hpasses) rfl rfl

theorem Covers.each (h : account.Covers machine) (nodes : List Expr) :
    Leads limit fuel account [(.each nodes, machine)] id (Eval.each limit fuel nodes machine) :=
  h.part (fun hpasses => by cases hpasses) rfl rfl

theorem Covers.call {callee : Callable} (h : account.Covers machine)
    (hcallee : account.known callee)
    (hvalues : ∀ {function}, .callable function ∈ values → account.known function) :
    Leads limit fuel account [(.call callee values, machine)] ([·])
      (Eval.call limit fuel callee values machine) := by
  refine h.part (fun hpasses => ?_) rfl rfl
  cases hpasses with
  | function => exact hcallee
  | argument hmem => exact hvalues hmem

theorem Covers.statement (h : account.Covers machine) (node : Stmt) :
    Leads limit fuel account [(.statement node, machine)] ([·.result])
      (Eval.statement limit fuel node machine) :=
  h.part (fun hpasses => by cases hpasses) rfl rfl

theorem Covers.body (h : account.Covers machine) (nodes : List Stmt) :
    Leads limit fuel account [(.body nodes, machine)] ([·.result])
      (Eval.body limit fuel nodes machine) :=
  h.part (fun hpasses => by cases hpasses) rfl rfl

theorem Covers.orNil (h : account.Covers machine) (node : Option Expr) :
    Leads limit fuel account (initialParts node machine) ([·])
      (Eval.orNil limit fuel node machine) := by
  cases node with
  | none => exact h.plain rfl
  | some node => exact h.expression node

/-! ## One task -/

theorem Covers.expression_succ (h : account.Covers machine) (node : Expr) :
    Leads limit fuel account (expressionParts limit fuel node machine) ([·])
      (Eval.expression limit (fuel + 1) node machine) := by
  rw [Eval.expression.eq_def]
  cases node with
  | literal value => exact h.plain (Discipline.callable?_ofLiteral value)
  | grouping inner => exact h.expression inner
  | unary operator operand =>
      apply (h.expression operand).bind_quiet
      intro result after middle hmiddle _ _
      exact hmiddle.ofExcept fun _ => Discipline.callable?_of_applyUnary
  | binary left operator right =>
      apply (h.expression left).bind
      intro first after middle hmiddle _ _
      apply (hmiddle.expression right).bind_quiet
      intro second later final hfinal _ _
      exact hfinal.ofExcept fun _ => Discipline.callable?_of_applyBinary
  | logical left operator right =>
      apply (h.expression left).bind
      intro value after middle hmiddle _ hvalue
      split
      next => exact hmiddle.done hvalue
      next => exact hmiddle.expression right
  | «variable» name => exact h.lookUp
  | assign name value =>
      apply (h.expression value).bind_quiet
      intro result after middle hmiddle _ hresult
      apply (hmiddle.overwrite fun heq =>
        hresult (List.mem_singleton.mpr heq.symm)).bind_quiet
      intro _ later final hfinal hold _
      exact hfinal.done fun hmem => hold (hresult hmem)
  | call callee paren arguments =>
      apply (h.expression callee).bind
      intro value after middle hmiddle _ hvalue
      cases hfunction : value.callable? with
      | none => exact hmiddle.raise
      | some function =>
          have hknown : middle.known function := by
            apply hvalue
            cases value <;> cases hfunction
            exact List.mem_singleton_self _
          apply (hmiddle.each arguments).bind
          intro values ready final hfinal hold hvalues
          rw [callParts]
          by_cases harity : values.length = function.arity
          · simp only [harity, true_and, if_true]
            exact hfinal.inCall fun hready => hready.call (hold hknown) hvalues
          · simp only [harity, false_and, if_false]
            exact hfinal.raise

theorem Covers.each_succ (h : account.Covers machine) (nodes : List Expr) :
    Leads limit fuel account (Task.parts limit fuel (.each nodes) machine) id
      (Eval.each limit (fuel + 1) nodes machine) := by
  cases nodes with
  | nil =>
      rw [Eval.each]
      exact h.done fun hmem => by cases hmem
  | cons first others =>
      rw [Eval.each]
      apply (h.expression first).bind
      intro value after middle hmiddle _ hvalue
      apply (hmiddle.each others).bind_quiet
      intro values later final hfinal hold hvalues
      apply hfinal.done
      intro function hmem
      rcases List.mem_cons.mp hmem with heq | hmem
      · exact hold (hvalue (List.mem_singleton.mpr heq))
      · exact hvalues hmem

theorem Covers.call_succ {callee : Callable} (h : account.Covers machine)
    (hvalues : ∀ {function}, .callable function ∈ values → account.known function) :
    Leads limit fuel account (Task.parts limit fuel (.call callee values) machine) ([·])
      (Eval.call limit (fuel + 1) callee values machine) := by
  rw [Eval.call.eq_def]
  cases callee with
  | native builtin identity => exact h.runBuiltin
  | declared function =>
      have hbody : Leads limit fuel account
          [(.body function.body, machine.enter function.closure function.parameters values)]
          ([·.result]) (Action.inScope function.closure function.parameters values
            (Eval.body limit fuel function.body) machine) :=
        ((h.enter hvalues function.closure function.parameters).body function.body).inScope
      apply hbody.bind_quiet
      intro flow after middle hmiddle _ hflow
      exact hmiddle.done hflow

/-- The account of a statement that is no declaration of a function. -/
theorem Covers.statement_succ_of_own (h : account.Covers machine) {node : Stmt}
    (hown : Task.own (.statement node) machine = []) :
    Leads limit fuel account (statementParts limit fuel node machine) ([·.result])
      (Eval.statement limit (fuel + 1) node machine) := by
  have hnormal {account : Account} {function : Callable}
      (hmem : .callable function ∈ [Flow.normal.result]) : account.known function := by
    cases List.mem_singleton.mp hmem
  rw [Eval.statement.eq_def]
  cases node with
  | expression value =>
      apply (h.expression value).bind_quiet
      intro _ after middle hmiddle _ _
      exact hmiddle.done hnormal
  | print value =>
      apply (h.expression value).bind_quiet
      intro result after middle hmiddle _ _
      apply hmiddle.request.bind_quiet
      intro _ later final hfinal _ _
      exact hfinal.done hnormal
  | var name initial =>
      show Leads limit fuel account _ _
        (Eval.statement limit (fuel + 1) (.var name initial) machine)
      rw [Eval.statement_var]
      apply (h.orNil initial).bind_quiet
      intro value after middle hmiddle _ hvalue
      apply (hmiddle.declare fun heq => hvalue (List.mem_singleton.mpr heq.symm)).bind_quiet
      intro _ later final hfinal _ _
      exact hfinal.done hnormal
  | block statements =>
      exact ((h.enter (fun hmem => by cases hmem) machine.current []).body statements).inScope
  | branch condition consequent alternative =>
      apply (h.expression condition).bind
      intro value after middle hmiddle _ _
      split
      next => exact hmiddle.statement consequent
      next =>
        cases alternative with
        | none => exact hmiddle.done hnormal
        | some alternative => exact hmiddle.statement alternative
  | loop condition repeated =>
      apply (h.expression condition).bind
      intro value after middle hmiddle _ _
      split
      next =>
        apply (hmiddle.statement repeated).bind
        intro flow later final hfinal _ hflow
        cases flow with
        | normal => exact hfinal.statement (.loop condition repeated)
        | returned value => exact hfinal.done hflow
      next => exact hmiddle.done hnormal
  | function name parameters statements => cases hown
  | ret keyword value =>
      show Leads limit fuel account _ _
        (Eval.statement limit (fuel + 1) (.ret keyword value) machine)
      rw [Eval.statement_ret]
      apply (h.orNil value).bind_quiet
      intro result after middle hmiddle _ hresult
      exact hmiddle.done hresult

/-- A declaration binds the function that it makes. -/
theorem Covers.declaration_succ (h : account.Covers machine) (name : Token)
    (parameters : List Token) (statements : List Stmt) :
    Leads limit fuel
      (account.extend (Task.own (.statement (.function name parameters statements)) machine)) []
      ([·.result])
      (Eval.statement limit (fuel + 1) (.function name parameters statements) machine) := by
  let function : Function := ⟨name, parameters, statements, .global, machine.supply⟩
  have hmade : (account.extend [function]).Covers { machine with supply := machine.supply + 1 } :=
    ⟨congrArg (· + 1) h.supply, fun hstores => .inl (h.stored hstores)⟩
  have hknown {bound : Callable} (heq : Value.callable (.declared function) = .callable bound) :
      (account.extend [function]).known bound := by
    cases heq
    exact .inr ⟨function, List.mem_singleton_self _, rfl⟩
  show Leads limit fuel (account.extend [function]) [] _
    ((Action.declare name (.callable (.declared function)) >>= fun _ => pure Flow.normal)
      { machine with supply := machine.supply + 1 })
  apply (hmade.declare hknown).bind_quiet
  intro _ later final hfinal _ _
  exact hfinal.done fun hmem => by cases List.mem_singleton.mp hmem

theorem Covers.statement_succ (h : account.Covers machine) (node : Stmt) :
    Leads limit fuel (account.extend (Task.own (.statement node) machine))
      (statementParts limit fuel node machine) ([·.result])
      (Eval.statement limit (fuel + 1) node machine) := by
  cases node with
  | function name parameters statements => exact h.declaration_succ name parameters statements
  | _ =>
      rw [Task.own, extend_nil]
      · exact h.statement_succ_of_own rfl
      · intro name parameters statements heq
        cases heq

theorem Covers.body_succ (h : account.Covers machine) (nodes : List Stmt) :
    Leads limit fuel account (Task.parts limit fuel (.body nodes) machine) ([·.result])
      (Eval.body limit (fuel + 1) nodes machine) := by
  cases nodes with
  | nil =>
      rw [Eval.body]
      exact h.done fun hmem => by cases List.mem_singleton.mp hmem
  | cons first others =>
      rw [Eval.body]
      apply (h.statement first).bind
      intro flow after middle hmiddle _ hflow
      cases flow with
      | normal => exact hmiddle.body others
      | returned value => exact hmiddle.done hflow

variable {task part : Task}

/-- What one task does: it makes its own functions, and then its parts follow one after the
other. -/
theorem Covers.task_succ (h : account.Covers machine)
    (hpasses : ∀ {function}, task.Passes function → account.known function) :
    ∃ last,
      Chain limit fuel (account.extend (task.own machine)) (task.parts limit fuel machine) last ∧
      last.Covers (task.last limit (fuel + 1) machine) ∧
      ∀ {function}, .callable function ∈ task.answers limit (fuel + 1) machine →
        last.known function := by
  have hnone {task : Task} (hown : task.own machine = []) :
      account.extend (task.own machine) = account := by
    rw [hown, extend_nil]
  cases task with
  | expression node =>
      rw [hnone rfl]
      obtain ⟨last, hchain, hcovers, hvalues⟩ := h.expression_succ node
      exact ⟨last, hchain, hcovers, hvalues⟩
  | each nodes =>
      rw [hnone rfl]
      obtain ⟨last, hchain, hcovers, hvalues⟩ := h.each_succ nodes
      exact ⟨last, hchain, hcovers, hvalues⟩
  | call callee values =>
      rw [hnone rfl]
      obtain ⟨last, hchain, hcovers, hvalues⟩ := h.call_succ fun hmem => hpasses (.argument hmem)
      exact ⟨last, hchain, hcovers, hvalues⟩
  | statement node =>
      obtain ⟨last, hchain, hcovers, hvalues⟩ := h.statement_succ node
      exact ⟨last, hchain, hcovers, hvalues⟩
  | body nodes =>
      rw [hnone rfl]
      obtain ⟨last, hchain, hcovers, hvalues⟩ := h.body_succ nodes
      exact ⟨last, hchain, hcovers, hvalues⟩

end Account

end Eval

end LoxLang
