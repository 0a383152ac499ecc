/-
# Regular programs have no impossible faults

Evaluation has a fault for an operator that it does not know, and a statement at the top
level may end with a return. Neither happens as long as all trees are regular: those that
are evaluated, and those that functions were made of. A machine that stores only regular
functions goes on storing only such, however an evaluation of a regular tree on it ends.

The induction over evaluation is not that of a discipline: what is known of a value that
is made depends on the tree that makes it, and faults are spoken of as well as results.
-/

import LoxLang.Proofs.Evaluation.Restoration
import LoxLang.Proofs.Grammar.Regularity

namespace LoxLang

/-! ## Regular values, faults and ends -/

/-- The function was made of a regular tree. -/
def Callable.Regular : Callable → Prop
  | .declared function =>
    function.parameters.length ≤ 255 ∧ ∀ node ∈ function.body, node.Regular true
  | .native _ _ => True

/-- The value, if it is a function, was made of a regular tree. -/
def Value.Regular : Value → Prop
  | .callable function => function.Regular
  | _ => True

/-- The fault is not that of an operator that is none. -/
def RuntimeFault.Regular (fault : RuntimeFault) : Prop :=
  fault ≠ .invalidUnaryOperator ∧ fault ≠ .invalidBinaryOperator

/-- A fault of a program is not that of an operator that is none. -/
def Fault.Regular : Fault → Prop
  | .program error => error.fault.Regular
  | .sink _ => True

/-- A return, which only happens inside of functions, is of a regular value. -/
def Flow.Regular (inside : Bool) : Flow → Prop
  | .normal => True
  | .returned value => inside = true ∧ value.Regular

/-- The result, if there is one, is as told, and the fault, if there is one, is regular. -/
def Exit.Regular {α : Type} (P : α → Prop) : Exit Fault α → Prop
  | .value result => P result
  | .fault cause => cause.Regular
  | .outOfFuel => True

/-- All values that are stored are regular. -/
def Machine.Regular (machine : Machine) : Prop :=
  ∀ value, machine.environment.Stores value → value.Regular

theorem Value.regular_of_callable? {value : Value} (h : value.callable? = none) :
    value.Regular := by
  cases value with
  | callable function => cases h
  | _ => trivial

theorem Value.regular_callable {value : Value} {function : Callable} (h : value.Regular)
    (hcallable : value.callable? = some function) : function.Regular := by
  cases value <;> cases hcallable
  exact h

theorem Flow.Regular.result {inside : Bool} {flow : Flow} (h : flow.Regular inside) :
    flow.result.Regular := by
  cases flow with
  | normal => trivial
  | returned value => exact h.2

/-- The operators of regular nodes apply to all values, or fault in ways of the language. -/
theorem Value.regular_of_applyUnary {operator : TokenKind} {operand : Value}
    {fault : RuntimeFault} (hoperator : operator = .bang ∨ operator = .minus)
    (h : operand.applyUnary operator = .error fault) : fault.Regular := by
  rcases hoperator with rfl | rfl
  · cases h
  · cases operand <;> cases h <;> exact ⟨nofun, nofun⟩

theorem Value.regular_of_applyBinary {operator : TokenKind} {left right : Value}
    {fault : RuntimeFault} (hoperator : operator ∈ binaryOperators)
    (h : left.applyBinary operator right = .error fault) : fault.Regular := by
  have hnumbers {make : Float → Float → Value} (h : onNumbers make left right = .error fault) :
      fault.Regular := by
    unfold onNumbers at h
    split at h <;> cases h
    exact ⟨nofun, nofun⟩
  have hadd (h : left.add right = .error fault) : fault.Regular := by
    unfold add at h
    split at h <;> cases h
    exact ⟨nofun, nofun⟩
  unfold applyBinary at h
  split at h
  · exact hadd h
  iterate 7 exact hnumbers h
  · cases h
  · cases h
  next hplus hminus hslash hstar hgreater hgreaterEqual hless hlessEqual hequal hbang =>
    simp_all [binaryOperators]

/-! ## Actions on regular machines -/

namespace Action

variable {α β : Type} {P : α → Prop} {Q : β → Prop}

/-- On a regular machine the action ends as told, and leaves a regular machine. -/
def Safe (P : α → Prop) (action : Action α) : Prop :=
  ∀ machine : Machine, machine.Regular →
    (action machine).1.Regular P ∧ (action machine).2.Regular

theorem safe_pure {result : α} (h : P result) : Safe P (pure result) :=
  fun _ hm => ⟨h, hm⟩

theorem safe_outOfFuel : Safe P (outOfFuel : Action α) :=
  fun _ hm => ⟨trivial, hm⟩

theorem safe_raise {token : Token} {fault : RuntimeFault} (h : fault.Regular) :
    Safe P (raise token fault : Action α) :=
  fun _ hm => ⟨h, hm⟩

theorem Safe.bind {first : Action α} {next : α → Action β} (hfirst : Safe P first)
    (hnext : ∀ result, P result → Safe Q (next result)) : Safe Q (first >>= next) := by
  intro machine hm
  obtain ⟨hexit, hafter⟩ := hfirst machine hm
  show ((Action.bind first next machine).1.Regular Q) ∧ (Action.bind first next machine).2.Regular
  rw [Action.bind]
  revert hexit hafter
  rcases first machine with ⟨result | cause | _, after⟩
  · intro hresult hafter
    exact hnext result hresult after hafter
  · intro hcause hafter
    exact ⟨hcause, hafter⟩
  · intro _ hafter
    exact ⟨trivial, hafter⟩

theorem safe_ofExcept {token : Token} {outcome : Except RuntimeFault α}
    (hok : ∀ result, outcome = .ok result → P result)
    (herror : ∀ fault, outcome = .error fault → fault.Regular) :
    Safe P (ofExcept token outcome) := by
  cases outcome with
  | ok result => exact safe_pure (hok result rfl)
  | error fault => exact safe_raise (herror fault rfl)

theorem regular_define {machine : Machine} (hm : machine.Regular) {value : Value}
    (hvalue : value.Regular) (scope : ScopeId) (name : String) :
    Machine.Regular
      { machine with environment := machine.environment.define scope name value } := by
  intro stored hstored
  rcases hstored.of_define with hbefore | rfl
  · exact hm stored hbefore
  · exact hvalue

theorem safe_lookUp {name : Token} : Safe Value.Regular (lookUp name) := by
  intro machine hm
  rw [lookUp]
  split
  next scope value heq => exact ⟨hm value (Environment.stores_of_searchWithin heq), hm⟩
  next =>
    have hfault : RuntimeFault.Regular (.undefinedVariable name.lexeme) := by
      constructor <;> simp
    exact safe_raise hfault machine hm
  next => exact safe_outOfFuel machine hm

theorem safe_overwrite {name : Token} {value : Value} (hvalue : value.Regular) :
    Safe (fun _ => True) (overwrite name value) := by
  intro machine hm
  rw [overwrite]
  split
  next scope held heq => exact ⟨trivial, regular_define hm hvalue scope name.lexeme⟩
  next =>
    have hfault : RuntimeFault.Regular (.undefinedVariable name.lexeme) := by
      constructor <;> simp
    exact safe_raise hfault machine hm
  next => exact safe_outOfFuel machine hm

theorem safe_declare {name : Token} {value : Value} (hvalue : value.Regular) :
    Safe (fun _ => True) (declare name value) :=
  fun machine hm => ⟨trivial, regular_define hm hvalue machine.current name.lexeme⟩

theorem safe_makeFunction {name : Token} {parameters : List Token} {body : List Stmt}
    (hparameters : parameters.length ≤ 255) (hbody : ∀ node ∈ body, node.Regular true) :
    Safe Value.Regular (makeFunction name parameters body) :=
  fun _ hm => ⟨⟨hparameters, hbody⟩, hm⟩

theorem safe_request {work : Sink → Option SinkFault × Sink} :
    Safe (fun _ => True) (request work) := by
  intro machine hm
  rw [request]
  split
  · exact ⟨trivial, hm⟩
  · exact ⟨trivial, hm⟩

theorem safe_runBuiltin {builtin : Builtin} : Safe Value.Regular (runBuiltin builtin) := by
  cases builtin with
  | clock => exact fun _ hm => ⟨trivial, hm⟩

/-- The arguments bound in a new scope are regular like what was stored before. -/
theorem Safe.inScope {action : Action α} (h : Safe P action) (enclosing : ScopeId)
    (names : List Token) (values : List Value) (hvalues : ∀ value ∈ values, value.Regular) :
    Safe P (Action.inScope enclosing names values action) := by
  intro machine hm
  have hentered : (machine.enter enclosing names values).Regular := by
    intro stored hstored
    rcases hstored.of_defineAll with hbefore | hmem
    · exact hm stored hbefore.of_push
    · exact hvalues stored hmem
  obtain ⟨hexit, hafter⟩ := h _ hentered
  rw [inScope_apply]
  exact ⟨hexit, fun stored hstored => hafter stored hstored.of_pop⟩

theorem Safe.inBlock {action : Action α} (h : Safe P action) : Safe P (Action.inBlock action) :=
  fun machine hm => h.inScope machine.current [] [] (List.forall_mem_nil _) machine hm

theorem Safe.inCall {limit : Option Nat} {paren : Token} {action : Action α} (h : Safe P action) :
    Safe P (Action.inCall limit paren action) := by
  intro machine hm
  rw [Action.inCall]
  split
  · have hfault : RuntimeFault.Regular .stackOverflow := by
      constructor <;> simp
    exact safe_raise hfault machine hm
  · obtain ⟨hexit, hafter⟩ := h { machine with callDepth := machine.callDepth + 1 } hm
    exact ⟨hexit, hafter⟩

end Action

/-! ## Evaluation -/

namespace Eval

open LoxLang.Action

variable (limit : Option Nat)

/-- With the given fuel, all of evaluation is safe for regular trees. -/
structure SafeWith (fuel : Nat) : Prop where
  expression {node : Expr} : node.Regular → Safe Value.Regular (Eval.expression limit fuel node)
  each {nodes : List Expr} : (∀ node ∈ nodes, node.Regular) →
    Safe (fun values => ∀ value ∈ values, value.Regular) (Eval.each limit fuel nodes)
  call {function : Callable} {values : List Value} : function.Regular →
    (∀ value ∈ values, value.Regular) → Safe Value.Regular (Eval.call limit fuel function values)
  statement {inside : Bool} {node : Stmt} : node.Regular inside →
    Safe (Flow.Regular inside) (Eval.statement limit fuel node)
  body {inside : Bool} {nodes : List Stmt} : (∀ node ∈ nodes, node.Regular inside) →
    Safe (Flow.Regular inside) (Eval.body limit fuel nodes)

variable {limit} {fuel : Nat} {inside : Bool}

theorem SafeWith.expression_succ (h : SafeWith limit fuel) {node : Expr} (hnode : node.Regular) :
    Safe Value.Regular (Eval.expression limit (fuel + 1) node) := by
  rw [Eval.expression.eq_def]
  cases hnode with
  | literal => exact safe_pure (Value.regular_of_callable? (Discipline.callable?_ofLiteral _))
  | grouping hinner => exact h.expression hinner
  | unary hoperator hoperand =>
      apply (h.expression hoperand).bind
      intro value _
      apply safe_ofExcept
      · intro result hresult
        exact Value.regular_of_callable? (Discipline.callable?_of_applyUnary hresult)
      · intro fault hfault
        exact Value.regular_of_applyUnary hoperator hfault
  | binary hoperator hleft hright =>
      apply (h.expression hleft).bind
      intro first _
      apply (h.expression hright).bind
      intro second _
      apply safe_ofExcept
      · intro result hresult
        exact Value.regular_of_callable? (Discipline.callable?_of_applyBinary hresult)
      · intro fault hfault
        exact Value.regular_of_applyBinary hoperator hfault
  | logical _ hleft hright =>
      apply (h.expression hleft).bind
      intro value hvalue
      split
      · exact safe_pure hvalue
      · exact h.expression hright
  | «variable» => exact safe_lookUp
  | assign hvalue =>
      exact (h.expression hvalue).bind fun result hresult =>
        (safe_overwrite hresult).bind fun _ _ => safe_pure hresult
  | call hcallee harguments _ =>
      apply (h.expression hcallee).bind
      intro value hvalue
      split
      next =>
        exact safe_raise ⟨nofun, nofun⟩
      next function hcallable =>
        apply (h.each harguments).bind
        intro values hvalues
        split
        · exact (h.call (Value.regular_callable hvalue hcallable) hvalues).inCall
        · exact safe_raise ⟨nofun, nofun⟩

theorem SafeWith.each_succ (h : SafeWith limit fuel) {nodes : List Expr}
    (hnodes : ∀ node ∈ nodes, node.Regular) :
    Safe (fun values => ∀ value ∈ values, value.Regular) (Eval.each limit (fuel + 1) nodes) := by
  cases nodes with
  | nil =>
      rw [Eval.each]
      exact safe_pure (by simp)
  | cons first others =>
      obtain ⟨hfirst, hothers⟩ := List.forall_mem_cons.mp hnodes
      rw [Eval.each]
      apply (h.expression hfirst).bind
      intro value hvalue
      apply (h.each hothers).bind
      intro values hvalues
      exact safe_pure (List.forall_mem_cons.mpr ⟨hvalue, hvalues⟩)

theorem SafeWith.call_succ (h : SafeWith limit fuel) {function : Callable} {values : List Value}
    (hfunction : function.Regular) (hvalues : ∀ value ∈ values, value.Regular) :
    Safe Value.Regular (Eval.call limit (fuel + 1) function values) := by
  rw [Eval.call.eq_def]
  cases function with
  | native builtin identity => exact safe_runBuiltin
  | declared function =>
      have hscope :=
        (h.body hfunction.2).inScope function.closure function.parameters values hvalues
      exact hscope.bind fun flow hflow => safe_pure hflow.result

theorem SafeWith.orNil (h : SafeWith limit fuel) {node : Option Expr}
    (hnode : ∀ value ∈ node, value.Regular) : Safe Value.Regular (Eval.orNil limit fuel node) := by
  cases node with
  | none => exact safe_pure trivial
  | some node => exact h.expression (hnode node rfl)

theorem SafeWith.statement_succ (h : SafeWith limit fuel) {node : Stmt}
    (hnode : node.Regular inside) :
    Safe (Flow.Regular inside) (Eval.statement limit (fuel + 1) node) := by
  have hnormal : Safe (Flow.Regular inside) (Pure.pure .normal) := safe_pure trivial
  rw [Eval.statement.eq_def]
  cases hnode with
  | expression hvalue => exact (h.expression hvalue).bind fun _ _ => hnormal
  | print hvalue => exact (h.expression hvalue).bind fun _ _ => safe_request.bind fun _ _ => hnormal
  | @var _ name initial hinitial =>
      show Safe _ (Eval.statement limit (fuel + 1) (.var name initial))
      rw [Eval.statement_var]
      apply (h.orNil hinitial).bind
      intro value hvalue
      exact (safe_declare hvalue).bind fun _ _ => hnormal
  | block hbody => exact (h.body hbody).inBlock
  | @branch _ _ _ alternative hcondition hconsequent halternative =>
      apply (h.expression hcondition).bind
      intro value _
      split
      · exact h.statement hconsequent
      · cases alternative with
        | none => exact hnormal
        | some alternative => exact h.statement (halternative alternative rfl)
  | loop hcondition hbody =>
      apply (h.expression hcondition).bind
      intro value _
      split
      · apply (h.statement hbody).bind
        intro flow hflow
        cases flow with
        | normal => exact h.statement (.loop hcondition hbody)
        | returned value => exact safe_pure hflow
      · exact hnormal
  | function hparameters hbody =>
      exact (safe_makeFunction hparameters hbody).bind fun function hfunction =>
        (safe_declare hfunction).bind fun _ _ => hnormal
  | @ret keyword value hvalue =>
      show Safe _ (Eval.statement limit (fuel + 1) (.ret keyword value))
      rw [Eval.statement_ret]
      exact (h.orNil hvalue).bind fun result hresult => safe_pure ⟨rfl, hresult⟩

theorem SafeWith.body_succ (h : SafeWith limit fuel) {nodes : List Stmt}
    (hnodes : ∀ node ∈ nodes, node.Regular inside) :
    Safe (Flow.Regular inside) (Eval.body limit (fuel + 1) nodes) := by
  cases nodes with
  | nil =>
      rw [Eval.body]
      exact safe_pure trivial
  | cons first others =>
      obtain ⟨hfirst, hothers⟩ := List.forall_mem_cons.mp hnodes
      rw [Eval.body]
      apply (h.statement hfirst).bind
      intro flow hflow
      cases flow with
      | normal => exact h.body hothers
      | returned value => exact safe_pure hflow

variable (limit)

/-- Evaluation is safe for regular trees. -/
theorem safe (fuel : Nat) : SafeWith limit fuel := by
  induction fuel with
  | zero =>
      constructor
      · intro node _
        rw [Eval.expression]
        exact safe_outOfFuel
      · intro nodes _
        rw [Eval.each]
        exact safe_outOfFuel
      · intro function values _ _
        rw [Eval.call]
        exact safe_outOfFuel
      · intro inside node _
        rw [Eval.statement]
        exact safe_outOfFuel
      · intro inside nodes _
        rw [Eval.body]
        exact safe_outOfFuel
  | succ fuel ih =>
      exact ⟨ih.expression_succ, ih.each_succ, ih.call_succ, ih.statement_succ, ih.body_succ⟩

theorem safe_program (fuel : Nat) {program : Program} (h : ∀ node ∈ program, node.Regular false) :
    Safe (fun _ => True) (Eval.program limit fuel program) := by
  rw [Eval.program]
  exact ((safe limit fuel).body h).bind fun _ _ => safe_request

end Eval

end LoxLang
