/-
# Disciplines

Much of what can be said about evaluation has one form: something holds of every
machine, every value that occurs fits, and what a machine is led to is related to what
it was. Evaluation is put together from a few basic actions, and whatever these keep,
all of it keeps. A discipline states what is to be kept and that the basic actions keep
it; the induction over evaluation is done here, once for all of them.

How an evaluation ends makes no difference. A fault, or too little fuel, leaves a
machine behind that the discipline speaks of as well.
-/

import LoxLang.Evaluation.Basic

namespace LoxLang

/-! ## Scopes entered and left -/

namespace Machine

/-- The machine that an action in a new scope starts on. -/
def enter (machine : Machine) (enclosing : ScopeId) (names : List Token) (values : List Value) :
    Machine :=
  { machine with
    environment := (machine.environment.push enclosing).defineAll machine.environment.next
      (names.map Token.lexeme) values
    current := machine.environment.next }

/-- The machine once the new scope is released, `inner` being what the action in it left. -/
def leave (machine inner : Machine) : Machine :=
  { inner with
    environment := inner.environment.pop machine.environment.next
    current := machine.current }

end Machine

namespace Action

variable {α : Type}

theorem inScope_apply (enclosing : ScopeId) (names : List Token) (values : List Value)
    (action : Action α) (machine : Machine) :
    inScope enclosing names values action machine =
      ((action (machine.enter enclosing names values)).1,
        machine.leave (action (machine.enter enclosing names values)).2) :=
  rfl

end Action

namespace Eval

variable {limit : Option Nat} {fuel : Nat} {name keyword : Token}

/-- The value of an expression, or nil if there is none. -/
def orNil (limit : Option Nat) (fuel : Nat) : Option Expr → Action Value
  | none => pure .nil
  | some node => expression limit fuel node

theorem statement_var (initial : Option Expr) :
    statement limit (fuel + 1) (.var name initial) =
      orNil limit fuel initial >>= fun value => Action.declare name value >>= fun _ =>
        pure .normal := by
  cases initial with
  | none => rfl
  | some initial => rfl

theorem statement_ret (value : Option Expr) :
    statement limit (fuel + 1) (.ret keyword value) =
      orNil limit fuel value >>= fun result => pure (.returned result) := by
  cases value with
  | none => rfl
  | some value => rfl

end Eval

/-! ## Disciplines and what they ask for -/

/-- What is being run. Statements may declare names in the current scope, expressions
may not. -/
inductive Phase
  | evaluating
  | executing

/-- The scopes that a new one can be opened in: the current one for a block, and for a
call the one that the function closes over. -/
def Opens (Fit : Value → Prop) (machine : Machine) (enclosing : ScopeId) : Prop :=
  enclosing = machine.current ∨
    ∃ function : Function, Fit (.callable (.declared function)) ∧ function.closure = enclosing

/-- What evaluation is to keep, and that its basic actions do. -/
structure Discipline where
  /-- What is known of every machine. -/
  Holds : Machine → Prop
  /-- What is known of every value. -/
  Fit : Value → Prop
  /-- How a machine is related to one that it is led to. -/
  Leads : Phase → Machine → Machine → Prop
  refl (phase : Phase) (machine : Machine) : Leads phase machine machine
  trans {phase : Phase} {first second third : Machine} :
    Leads phase first second → Leads phase second third → Leads phase first third
  executing {before after : Machine} : Leads .evaluating before after → Leads .executing before after
  /-- Only functions can be unfit. -/
  plain {value : Value} : value.callable? = none → Fit value
  found {machine : Machine} {scope : ScopeId} {name : String} {value : Value} : Holds machine →
    machine.environment.search machine.current name = .found scope value → Fit value
  overwritten {machine : Machine} {scope : ScopeId} {name : String} {held value : Value} :
    Holds machine → machine.environment.search machine.current name = .found scope held → Fit value →
      Holds { machine with environment := machine.environment.define scope name value } ∧
      Leads .evaluating machine
        { machine with environment := machine.environment.define scope name value }
  declared {machine : Machine} {value : Value} (name : String) : Holds machine → Fit value →
    Holds { machine with environment := machine.environment.define machine.current name value } ∧
    Leads .executing machine
      { machine with environment := machine.environment.define machine.current name value }
  made {machine : Machine} (name : Token) (parameters : List Token) (body : List Stmt) :
    Holds machine →
      Fit (.callable (.declared ⟨name, parameters, body, .global, machine.supply⟩)) ∧
      Holds { machine with supply := machine.supply + 1 } ∧
      Leads .evaluating machine { machine with supply := machine.supply + 1 }
  /-- The clock and the output are outside of what a program can refer to. -/
  observed {machine : Machine} (clock : Clock) (output : Sink) : Holds machine →
    Holds { machine with clock := clock, output := output } ∧
    Leads .evaluating machine { machine with clock := clock, output := output }
  entered {machine : Machine} {enclosing : ScopeId} {names : List Token} {values : List Value} :
    Holds machine → Opens Fit machine enclosing → (∀ value ∈ values, Fit value) →
      Holds (machine.enter enclosing names values)
  left {machine inner : Machine} {enclosing : ScopeId} {names : List Token} {values : List Value} :
    Holds machine → Opens Fit machine enclosing → (∀ value ∈ values, Fit value) →
      Holds inner → Leads .executing (machine.enter enclosing names values) inner →
      Holds (machine.leave inner) ∧ Leads .evaluating machine (machine.leave inner)
  descended {machine : Machine} : Holds machine →
    Holds { machine with callDepth := machine.callDepth + 1 }
  ascended {machine inner : Machine} : Holds machine → Holds inner →
    Leads .evaluating { machine with callDepth := machine.callDepth + 1 } inner →
      Holds { inner with callDepth := inner.callDepth - 1 } ∧
      Leads .evaluating machine { inner with callDepth := inner.callDepth - 1 }

namespace Discipline

variable (d : Discipline) {α β : Type} {phase : Phase} {P : α → Prop} {Q : β → Prop}

/-- The action keeps to the discipline, and its result, if it has one, is as required. -/
def Keeps (phase : Phase) (P : α → Prop) (action : Action α) : Prop :=
  ∀ machine, d.Holds machine →
    d.Holds (action machine).2 ∧ d.Leads phase machine (action machine).2 ∧
      ∀ result, (action machine).1 = .value result → P result

/-- All values in a list fit. -/
def FitAll (values : List Value) : Prop :=
  ∀ value ∈ values, d.Fit value

/-- The value that a call would have fits. -/
def FitFlow (flow : Flow) : Prop :=
  d.Fit flow.result

variable {d}

/-! ## Actions that keep to a discipline -/

theorem Keeps.executing {action : Action α} (h : d.Keeps .evaluating P action) :
    d.Keeps .executing P action := by
  intro machine hholds
  obtain ⟨hafter, hleads, hresult⟩ := h machine hholds
  exact ⟨hafter, d.executing hleads, hresult⟩

theorem Keeps.of_eq {action : Action α} (h : d.Keeps phase P action) {machine after : Machine}
    {result : α} (hholds : d.Holds machine) (heq : action machine = (.value result, after)) :
    d.Holds after ∧ d.Leads phase machine after ∧ P result := by
  obtain ⟨hafter, hleads, hresult⟩ := h machine hholds
  rw [heq] at hafter hleads hresult
  exact ⟨hafter, hleads, hresult result rfl⟩

/-- An action that leaves the machine alone keeps to every discipline. -/
theorem Keeps.of_unchanged {action : Action α} (hsame : ∀ machine, (action machine).2 = machine)
    (hresult : ∀ machine, d.Holds machine →
      ∀ result, (action machine).1 = .value result → P result) :
    d.Keeps phase P action := by
  intro machine hholds
  rw [hsame machine]
  exact ⟨hholds, d.refl phase machine, hresult machine hholds⟩

theorem keeps_pure {result : α} (h : P result) : d.Keeps phase P (pure result) := by
  apply Keeps.of_unchanged
  · intro machine
    rfl
  · intro machine _ found hfound
    cases hfound
    exact h

theorem keeps_outOfFuel : d.Keeps phase P Action.outOfFuel := by
  apply Keeps.of_unchanged
  · intro machine
    rfl
  · intro machine _ result hresult
    cases hresult

theorem keeps_raise {token : Token} {fault : RuntimeFault} :
    d.Keeps phase P (Action.raise token fault) := by
  apply Keeps.of_unchanged
  · intro machine
    rfl
  · intro machine _ result hresult
    cases hresult

theorem Keeps.bind {first : Action α} {next : α → Action β} (hfirst : d.Keeps phase P first)
    (hnext : ∀ result, P result → d.Keeps phase Q (next result)) :
    d.Keeps phase Q (first >>= next) := by
  intro machine hholds
  obtain ⟨hafter, hleads, hresult⟩ := hfirst machine hholds
  show d.Holds (Action.bind first next machine).2 ∧ _
  rw [show (first >>= next) = Action.bind first next from rfl, Action.bind]
  revert hafter hleads hresult
  rcases first machine with ⟨result | cause | _, after⟩
  · intro hafter hleads hresult
    obtain ⟨hdone, hlater, hfinal⟩ := hnext result (hresult result rfl) after hafter
    exact ⟨hdone, d.trans hleads hlater, hfinal⟩
  · intro hafter hleads _
    exact ⟨hafter, hleads, by simp⟩
  · intro hafter hleads _
    exact ⟨hafter, hleads, by simp⟩

theorem keeps_ofExcept {token : Token} {outcome : Except RuntimeFault α}
    (h : ∀ result, outcome = .ok result → P result) :
    d.Keeps phase P (.ofExcept token outcome) := by
  cases outcome with
  | ok result => exact keeps_pure (h result rfl)
  | error fault => exact keeps_raise

theorem keeps_lookUp {name : Token} : d.Keeps phase d.Fit (Action.lookUp name) := by
  intro machine hholds
  rw [Action.lookUp]
  split
  next scope value heq =>
    refine ⟨hholds, d.refl phase machine, fun result hresult => ?_⟩
    cases hresult
    exact d.found hholds heq
  next => exact keeps_raise machine hholds
  next => exact keeps_outOfFuel machine hholds

theorem keeps_overwrite {name : Token} {value : Value} (hvalue : d.Fit value) :
    d.Keeps .evaluating (fun _ => True) (Action.overwrite name value) := by
  intro machine hholds
  rw [Action.overwrite]
  split
  next scope held heq =>
    obtain ⟨hafter, hleads⟩ := d.overwritten hholds heq hvalue
    exact ⟨hafter, hleads, fun _ _ => trivial⟩
  next => exact keeps_raise machine hholds
  next => exact keeps_outOfFuel machine hholds

theorem keeps_declare {name : Token} {value : Value} (hvalue : d.Fit value) :
    d.Keeps .executing (fun _ => True) (Action.declare name value) := by
  intro machine hholds
  obtain ⟨hafter, hleads⟩ := d.declared name.lexeme hholds hvalue
  exact ⟨hafter, hleads, fun _ _ => trivial⟩

theorem keeps_makeFunction {name : Token} {parameters : List Token} {body : List Stmt} :
    d.Keeps .evaluating d.Fit (Action.makeFunction name parameters body) := by
  intro machine hholds
  obtain ⟨hfit, hafter, hleads⟩ := d.made name parameters body hholds
  refine ⟨hafter, hleads, fun result hresult => ?_⟩
  cases hresult
  exact hfit

theorem keeps_request {work : Sink → Option SinkFault × Sink} :
    d.Keeps .evaluating (fun _ => True) (Action.request work) := by
  intro machine hholds
  rw [Action.request]
  split
  next output _ =>
    obtain ⟨hafter, hleads⟩ := d.observed machine.clock output hholds
    exact ⟨hafter, hleads, fun _ _ => trivial⟩
  next fault output _ =>
    obtain ⟨hafter, hleads⟩ := d.observed machine.clock output hholds
    exact ⟨hafter, hleads, by simp⟩

theorem keeps_runBuiltin {builtin : Builtin} :
    d.Keeps .evaluating d.Fit (Action.runBuiltin builtin) := by
  cases builtin with
  | clock =>
      intro machine hholds
      obtain ⟨hafter, hleads⟩ := d.observed machine.clock.read machine.output hholds
      refine ⟨hafter, hleads, fun result hresult => ?_⟩
      cases hresult
      exact d.plain rfl

/-- A scope that is opened and released hides what happened in it. -/
theorem Keeps.inScope {action : Action α} {machine : Machine} {enclosing : ScopeId}
    {names : List Token} {values : List Value} (h : d.Keeps .executing P action)
    (hholds : d.Holds machine) (hopens : Opens d.Fit machine enclosing)
    (hvalues : d.FitAll values) :
    d.Holds (Action.inScope enclosing names values action machine).2 ∧
      d.Leads .evaluating machine (Action.inScope enclosing names values action machine).2 ∧
      ∀ result, (Action.inScope enclosing names values action machine).1 = .value result →
        P result := by
  obtain ⟨hinner, hleads, hresult⟩ :=
    h (machine.enter enclosing names values) (d.entered hholds hopens hvalues)
  obtain ⟨hafter, houter⟩ := d.left hholds hopens hvalues hinner hleads
  exact ⟨hafter, houter, hresult⟩

theorem Keeps.inBlock {action : Action α} (h : d.Keeps .executing P action) :
    d.Keeps .evaluating P (Action.inBlock action) := by
  intro machine hholds
  exact h.inScope hholds (.inl rfl) (List.forall_mem_nil _)

theorem Keeps.inCall {limit : Option Nat} {paren : Token} {action : Action α}
    (h : d.Keeps .evaluating P action) :
    d.Keeps .evaluating P (Action.inCall limit paren action) := by
  intro machine hholds
  rw [Action.inCall]
  split
  next => exact keeps_raise machine hholds
  next =>
    obtain ⟨hinner, hleads, hresult⟩ := h _ (d.descended hholds)
    obtain ⟨hafter, houter⟩ := d.ascended hholds hinner hleads
    exact ⟨hafter, houter, hresult⟩

/-! ## Evaluation -/

theorem callable?_of_applyUnary {operator : TokenKind} {operand result : Value}
    (h : operand.applyUnary operator = .ok result) : result.callable? = none := by
  unfold Value.applyUnary at h
  split at h
  · split at h
    · cases h
      rfl
    · cases h
  · cases h
    rfl
  · cases h

theorem callable?_of_onNumbers {make : Float → Float → Value} {left right result : Value}
    (hmake : ∀ a b, (make a b).callable? = none)
    (h : Value.onNumbers make left right = .ok result) : result.callable? = none := by
  unfold Value.onNumbers at h
  split at h
  · cases h
    exact hmake _ _
  · cases h

theorem callable?_of_add {left right result : Value} (h : left.add right = .ok result) :
    result.callable? = none := by
  unfold Value.add at h
  split at h
  · cases h
    rfl
  · cases h
    rfl
  · cases h

theorem callable?_of_applyBinary {operator : TokenKind} {left right result : Value}
    (h : left.applyBinary operator right = .ok result) : result.callable? = none := by
  unfold Value.applyBinary at h
  split at h
  · exact callable?_of_add h
  iterate 7 exact callable?_of_onNumbers (fun _ _ => rfl) h
  · cases h
    rfl
  · cases h
    rfl
  · cases h

theorem callable?_ofLiteral (literal : Literal) : (Value.ofLiteral literal).callable? = none := by
  cases literal <;> rfl

variable (d) (limit : Option Nat)

/-- With the given fuel, all of evaluation keeps to the discipline. -/
structure KeptWith (fuel : Nat) : Prop where
  expression (node : Expr) : d.Keeps .evaluating d.Fit (Eval.expression limit fuel node)
  each (nodes : List Expr) : d.Keeps .evaluating d.FitAll (Eval.each limit fuel nodes)
  call {function : Callable} {values : List Value} : d.Fit (.callable function) → d.FitAll values →
    d.Keeps .evaluating d.Fit (Eval.call limit fuel function values)
  statement (node : Stmt) : d.Keeps .executing d.FitFlow (Eval.statement limit fuel node)
  body (nodes : List Stmt) : d.Keeps .executing d.FitFlow (Eval.body limit fuel nodes)

variable {d limit} {fuel : Nat}

theorem KeptWith.expression_succ (h : d.KeptWith limit fuel) (node : Expr) :
    d.Keeps .evaluating d.Fit (Eval.expression limit (fuel + 1) node) := by
  rw [Eval.expression.eq_def]
  cases node with
  | literal value => exact keeps_pure (d.plain (callable?_ofLiteral value))
  | grouping inner => exact h.expression inner
  | unary operator operand =>
      apply (h.expression operand).bind
      intro value _
      exact keeps_ofExcept fun result hresult => d.plain (callable?_of_applyUnary hresult)
  | binary left operator right =>
      apply (h.expression left).bind
      intro first _
      apply (h.expression right).bind
      intro second _
      exact keeps_ofExcept fun result hresult => d.plain (callable?_of_applyBinary hresult)
  | logical left operator right =>
      apply (h.expression left).bind
      intro value hvalue
      split
      next => exact keeps_pure hvalue
      next => exact h.expression right
  | «variable» name => exact keeps_lookUp
  | assign name value =>
      apply (h.expression value).bind
      intro result hresult
      apply (keeps_overwrite hresult).bind
      intro _ _
      exact keeps_pure hresult
  | call callee paren arguments =>
      apply (h.expression callee).bind
      intro value hvalue
      split
      next => exact keeps_raise
      next function hfunction =>
        have hfit : d.Fit (.callable function) := by
          cases value <;> cases hfunction
          exact hvalue
        apply (h.each arguments).bind
        intro values hvalues
        split
        next => exact (h.call hfit hvalues).inCall
        next => exact keeps_raise

theorem KeptWith.each_succ (h : d.KeptWith limit fuel) (nodes : List Expr) :
    d.Keeps .evaluating d.FitAll (Eval.each limit (fuel + 1) nodes) := by
  cases nodes with
  | nil =>
      rw [Eval.each]
      exact keeps_pure (List.forall_mem_nil _)
  | cons first others =>
      rw [Eval.each]
      apply (h.expression first).bind
      intro value hvalue
      apply (h.each others).bind
      intro values hvalues
      exact keeps_pure (List.forall_mem_cons.mpr ⟨hvalue, hvalues⟩)

theorem KeptWith.call_succ (h : d.KeptWith limit fuel) {function : Callable} {values : List Value}
    (hfunction : d.Fit (.callable function)) (hvalues : d.FitAll values) :
    d.Keeps .evaluating d.Fit (Eval.call limit (fuel + 1) function values) := by
  rw [Eval.call.eq_def]
  cases function with
  | native builtin identity => exact keeps_runBuiltin
  | declared function =>
      have hscope : d.Keeps .evaluating d.FitFlow (Action.inScope function.closure
          function.parameters values (Eval.body limit fuel function.body)) := by
        intro machine hholds
        exact (h.body function.body).inScope hholds (.inr ⟨function, hfunction, rfl⟩) hvalues
      exact hscope.bind fun flow hflow => keeps_pure hflow

theorem KeptWith.orNil (h : d.KeptWith limit fuel) (node : Option Expr) :
    d.Keeps .evaluating d.Fit (Eval.orNil limit fuel node) := by
  cases node with
  | none => exact keeps_pure (d.plain rfl)
  | some node => exact h.expression node

theorem KeptWith.statement_succ (h : d.KeptWith limit fuel) (node : Stmt) :
    d.Keeps .executing d.FitFlow (Eval.statement limit (fuel + 1) node) := by
  have hnormal : d.FitFlow .normal := d.plain rfl
  rw [Eval.statement.eq_def]
  cases node with
  | expression value =>
      apply (h.expression value).executing.bind
      intro _ _
      exact keeps_pure hnormal
  | print value =>
      apply (h.expression value).executing.bind
      intro result _
      apply keeps_request.executing.bind
      intro _ _
      exact keeps_pure hnormal
  | var name initial =>
      show d.Keeps .executing d.FitFlow (Eval.statement limit (fuel + 1) (.var name initial))
      rw [Eval.statement_var]
      apply (h.orNil initial).executing.bind
      intro value hvalue
      apply (keeps_declare hvalue).bind
      intro _ _
      exact keeps_pure hnormal
  | block statements => exact (h.body statements).inBlock.executing
  | branch condition consequent alternative =>
      apply (h.expression condition).executing.bind
      intro value _
      split
      next => exact h.statement consequent
      next =>
        cases alternative with
        | none => exact keeps_pure hnormal
        | some alternative => exact h.statement alternative
  | loop condition repeated =>
      apply (h.expression condition).executing.bind
      intro value _
      split
      next =>
        apply (h.statement repeated).bind
        intro flow hflow
        cases flow with
        | normal => exact h.statement (.loop condition repeated)
        | returned value => exact keeps_pure hflow
      next => exact keeps_pure hnormal
  | function name parameters statements =>
      apply keeps_makeFunction.executing.bind
      intro function hfunction
      apply (keeps_declare hfunction).bind
      intro _ _
      exact keeps_pure hnormal
  | ret keyword value =>
      show d.Keeps .executing d.FitFlow (Eval.statement limit (fuel + 1) (.ret keyword value))
      rw [Eval.statement_ret]
      apply (h.orNil value).executing.bind
      intro result hresult
      exact keeps_pure hresult

theorem KeptWith.body_succ (h : d.KeptWith limit fuel) (nodes : List Stmt) :
    d.Keeps .executing d.FitFlow (Eval.body limit (fuel + 1) nodes) := by
  cases nodes with
  | nil =>
      rw [Eval.body]
      exact keeps_pure (d.plain rfl)
  | cons first others =>
      rw [Eval.body]
      apply (h.statement first).bind
      intro flow hflow
      cases flow with
      | normal => exact h.body others
      | returned value => exact keeps_pure hflow

variable (d limit)

/-- Evaluation keeps to every discipline. -/
theorem kept (fuel : Nat) : d.KeptWith limit fuel := by
  induction fuel with
  | zero =>
      constructor
      · intro node
        rw [Eval.expression]
        exact keeps_outOfFuel
      · intro nodes
        rw [Eval.each]
        exact keeps_outOfFuel
      · intro function values _ _
        rw [Eval.call]
        exact keeps_outOfFuel
      · intro node
        rw [Eval.statement]
        exact keeps_outOfFuel
      · intro nodes
        rw [Eval.body]
        exact keeps_outOfFuel
  | succ fuel ih =>
      exact ⟨ih.expression_succ, ih.each_succ, ih.call_succ, ih.statement_succ, ih.body_succ⟩

theorem keeps_program (fuel : Nat) (statements : Program) :
    d.Keeps .executing (fun _ => True) (Eval.program limit fuel statements) := by
  rw [Eval.program]
  apply ((d.kept limit fuel).body statements).bind
  intro flow _
  exact keeps_request.executing

end Discipline

end LoxLang
