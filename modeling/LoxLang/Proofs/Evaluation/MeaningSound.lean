/-
# What is run is meant

However much fuel it is given, an evaluation that ends does so as the rules say, and the
machine it leaves shows the setting that they say.
-/

import LoxLang.Proofs.Evaluation.View

namespace LoxLang

namespace Meaning

variable {α β : Type} {R : Except Fault α → Setting → Prop} {S : Except Fault β → Setting → Prop}

/-- If the run has ended, its end and what the machine shows then are related. -/
def Finishes (R : Except Fault α → Setting → Prop) : Exit Fault α × Machine → Prop
  | (.value result, after) => R (.ok result) after.view
  | (.fault fault, after) => R (.error fault) after.view
  | (.outOfFuel, _) => True

theorem Finishes.mono {run : Exit Fault α × Machine} (h : Finishes R run)
    {R' : Except Fault α → Setting → Prop}
    (hR : ∀ result after, R result after → R' result after) : Finishes R' run := by
  rcases run with ⟨result | fault | _, after⟩
  · exact hR _ _ h
  · exact hR _ _ h
  · trivial

theorem Finishes.bind {first : Action α} {next : α → Action β} {machine : Machine}
    (hfirst : Finishes R (first machine))
    (hfault : ∀ fault after, R (.error fault) after → S (.error fault) after)
    (hnext : ∀ result after, first machine = (.value result, after) → R (.ok result) after.view →
      Finishes S (next result after)) :
    Finishes S ((first >>= next) machine) := by
  show Finishes S (Action.bind first next machine)
  rw [Action.bind]
  revert hfirst hnext
  rcases first machine with ⟨result | fault | _, after⟩
  · intro hfirst hnext
    exact hnext result after rfl hfirst
  · intro hfirst _
    exact hfault fault after.view hfirst
  · intro _ _
    trivial

theorem finishes_ofExcept {token : Token} {outcome : Except RuntimeFault α} {machine : Machine}
    (h : R (outcome.mapError (blame token)) machine.view) :
    Finishes R (Action.ofExcept token outcome machine) := by
  cases outcome with
  | ok result => exact h
  | error fault => exact h

/-- A call that is let through counts as one while it lasts. -/
theorem finishes_inCall {S : Except Fault α → Setting → Prop} {limit : Option Nat} {paren : Token}
    {action : Action α} {machine : Machine} (hlimit : limit.any (· ≤ machine.callDepth) = false)
    (hrestored : Machine.Restored { machine with callDepth := machine.callDepth + 1 }
      (action { machine with callDepth := machine.callDepth + 1 }).2)
    (h : Finishes R (action { machine with callDepth := machine.callDepth + 1 }))
    (hR : ∀ result after, R result after → S result { after with callDepth := machine.callDepth }) :
    Finishes S (Action.inCall limit paren action machine) := by
  simp only [Action.inCall, hlimit, Bool.false_eq_true, if_false]
  revert hrestored h
  rcases action { machine with callDepth := machine.callDepth + 1 } with
    ⟨result | fault | _, inner⟩
  · intro hrestored h
    have hview := hR _ _ h
    rw [show machine.callDepth = inner.callDepth - 1 by rw [hrestored.callDepth]; rfl] at hview
    exact hview
  · intro hrestored h
    have hview := hR _ _ h
    rw [show machine.callDepth = inner.callDepth - 1 by rw [hrestored.callDepth]; rfl] at hview
    exact hview
  · intro _ _
    trivial

/-- However an action in a scope of its own ends, what matters afterwards is what leaving
the scope makes of the view. -/
theorem finishes_inScope {S : Except Fault α → Setting → Prop} {enclosing : ScopeId}
    {names : List Token} {values : List Value} {action : Action α} {machine : Machine}
    (h : Finishes R (action (machine.enter enclosing names values)))
    (hleave : ∀ result, R result (action (machine.enter enclosing names values)).2.view →
      S result (machine.leave (action (machine.enter enclosing names values)).2).view) :
    Finishes S (Action.inScope enclosing names values action machine) := by
  rw [Action.inScope_apply]
  revert h hleave
  rcases action (machine.enter enclosing names values) with ⟨result | fault | _, inner⟩
  · intro h hleave
    exact hleave _ h
  · intro h hleave
    exact hleave _ h
  · intro _ _
    trivial

variable (limit : Option Nat)

/-- With the given fuel, all of evaluation ends as the rules say. -/
structure MeantWith (fuel : Nat) : Prop where
  expression (node : Expr) {machine : Machine} : machine.Standing →
    Finishes (Evaluates limit node machine.view) (Eval.expression limit fuel node machine)
  each (nodes : List Expr) {machine : Machine} : machine.Standing →
    Finishes (EvaluatesAll limit nodes machine.view) (Eval.each limit fuel nodes machine)
  call {function : Callable} {values : List Value} {machine : Machine} : machine.Standing →
    function.Closed → (∀ value ∈ values, value.Closed) →
    Finishes (Applies limit function values machine.view)
      (Eval.call limit fuel function values machine)
  statement (node : Stmt) {machine : Machine} : machine.Standing →
    Finishes (Executes limit node machine.view) (Eval.statement limit fuel node machine)
  body (nodes : List Stmt) {machine : Machine} : machine.Standing →
    Finishes (Proceeds limit nodes machine.view) (Eval.body limit fuel nodes machine)

variable {limit} {fuel : Nat} {machine after : Machine}

/-! ## What results leave behind -/

theorem standing_of_expression (h : machine.Standing) {node : Expr} {value : Value}
    (heq : Eval.expression limit fuel node machine = (.value value, after)) :
    after.Standing ∧ value.Closed := by
  obtain ⟨hafter, _, hvalue⟩ := ((Machine.framing.kept limit fuel).expression node).of_eq h heq
  exact ⟨hafter, hvalue⟩

theorem standing_of_each (h : machine.Standing) {nodes : List Expr} {values : List Value}
    (heq : Eval.each limit fuel nodes machine = (.value values, after)) :
    after.Standing ∧ ∀ value ∈ values, value.Closed := by
  obtain ⟨hafter, _, hvalues⟩ := ((Machine.framing.kept limit fuel).each nodes).of_eq h heq
  exact ⟨hafter, hvalues⟩

theorem standing_of_statement (h : machine.Standing) {node : Stmt} {flow : Flow}
    (heq : Eval.statement limit fuel node machine = (.value flow, after)) : after.Standing :=
  (((Machine.framing.kept limit fuel).statement node).of_eq h heq).1

theorem closed_of_callable? {value : Value} {function : Callable} (hvalue : value.Closed)
    (hcallable : value.callable? = some function) : function.Closed := by
  cases value <;> cases hcallable
  exact hvalue

/-! ## One more unit of fuel -/

theorem MeantWith.expression_succ (h : MeantWith limit fuel) (node : Expr)
    (hm : machine.Standing) :
    Finishes (Evaluates limit node machine.view)
      (Eval.expression limit (fuel + 1) node machine) := by
  cases node with
  | literal value => exact Evaluates.literal
  | grouping inner =>
      apply (h.expression inner hm).mono
      intro result after hinner
      exact .grouping hinner
  | unary operator operand =>
      apply (h.expression operand hm).bind
      · intro fault after hoperand
        exact .unary hoperand
      · intro value after _ hoperand
        exact finishes_ofExcept (.unary hoperand)
  | binary left operator right =>
      apply (h.expression left hm).bind
      · intro fault after hleft
        exact .leftFault hleft
      · intro first middle heq hleft
        have hmiddle := (standing_of_expression hm heq).1
        apply (h.expression right hmiddle).bind
        · intro fault after hright
          exact .binary hleft hright
        · intro second after _ hright
          exact finishes_ofExcept (.binary hleft hright)
  | logical left operator right =>
      apply (h.expression left hm).bind
      · intro fault after hleft
        exact .logicalFault hleft
      · intro value middle heq hleft
        have hmiddle := (standing_of_expression hm heq).1
        split
        next hdecides => exact Evaluates.decided hleft hdecides
        next hdecides =>
          apply (h.expression right hmiddle).mono
          intro result after hright
          exact .undecided hleft (Bool.eq_false_iff.mpr hdecides) hright
  | «variable» name =>
      show Finishes _ (Action.lookUp name machine)
      cases hfind : machine.view.names.find? name.lexeme with
      | some value =>
          rw [hm.lookUp_of_some hfind]
          exact Evaluates.bound hfind
      | none =>
          rw [hm.lookUp_of_none hfind]
          exact Evaluates.unbound hfind
  | assign name value =>
      apply (h.expression value hm).bind
      · intro fault after hvalue
        exact .assignFault hvalue
      · intro result middle heq hvalue
        have hmiddle := (standing_of_expression hm heq).1
        show Finishes _ (Action.bind (Action.overwrite name result) _ middle)
        rw [Action.bind]
        cases hassign : middle.view.names.assign name.lexeme result with
        | some names =>
            obtain ⟨after, heq, hview⟩ := hmiddle.overwrite_of_some hassign
            rw [heq]
            show Evaluates limit _ _ (.ok result) after.view
            rw [hview]
            exact .assigned hvalue hassign
        | none =>
            rw [hmiddle.overwrite_of_none hassign]
            exact Evaluates.unassigned hvalue hassign
  | call callee paren arguments =>
      apply (h.expression callee hm).bind
      · intro fault after hcallee
        exact .calleeFault hcallee
      · intro value middle heq hcallee
        obtain ⟨hmiddle, hclosed⟩ := standing_of_expression hm heq
        cases hcallable : value.callable? with
        | none => exact Evaluates.notCallable hcallee hcallable
        | some function =>
            have hfunction := closed_of_callable? hclosed hcallable
            apply (h.each arguments hmiddle).bind
            · intro fault after harguments
              exact .argumentsFault hcallee hcallable harguments
            · intro values ready heq harguments
              obtain ⟨hready, hvalues⟩ := standing_of_each hmiddle heq
              by_cases harity : values.length = function.arity
              · rw [if_pos harity]
                cases hlimit : limit.any (· ≤ ready.callDepth) with
                | true =>
                    rw [Action.inCall, if_pos hlimit]
                    exact Evaluates.stackOverflow hcallee hcallable harguments harity hlimit
                | false =>
                    have hdeeper := Machine.framing.descended hready
                    apply finishes_inCall hlimit _ (h.call hdeeper hfunction hvalues)
                    · intro result after happlies
                      exact .call hcallee hcallable harguments harity hlimit happlies
                    · exact ((Machine.framing.kept limit fuel).call hfunction hvalues _
                        hdeeper).2.1.toRestored
              · rw [if_neg harity]
                exact Evaluates.wrongArity hcallee hcallable harguments harity

theorem MeantWith.each_succ (h : MeantWith limit fuel) (nodes : List Expr)
    (hm : machine.Standing) :
    Finishes (EvaluatesAll limit nodes machine.view) (Eval.each limit (fuel + 1) nodes machine) := by
  cases nodes with
  | nil =>
      rw [Eval.each]
      exact EvaluatesAll.nil
  | cons first others =>
      rw [Eval.each]
      apply (h.expression first hm).bind
      · intro fault after hfirst
        exact .firstFault hfirst
      · intro value middle heq hfirst
        have hmiddle := (standing_of_expression hm heq).1
        apply (h.each others hmiddle).bind
        · intro fault after hothers
          exact .cons hfirst hothers
        · intro values after _ hothers
          exact EvaluatesAll.cons hfirst hothers

theorem MeantWith.call_succ (h : MeantWith limit fuel) {function : Callable} {values : List Value}
    (hm : machine.Standing) (hfunction : function.Closed)
    (hvalues : ∀ value ∈ values, value.Closed) :
    Finishes (Applies limit function values machine.view)
      (Eval.call limit (fuel + 1) function values machine) := by
  cases function with
  | native builtin identity =>
      cases builtin with
      | clock => exact Applies.clock
  | declared function =>
      have hclosure : function.closure = .global := hfunction
      have hlive : ScopeId.global.index < machine.environment.depth :=
        machine.environment.global_live
      have hinner : (machine.enter .global function.parameters values).Standing :=
        hm.enter hlive hvalues
      have hframed := ((Machine.framing.kept limit fuel).body function.body _ hinner).2.1
      have hbody := h.body function.body hinner
      rw [Machine.view_enter hlive, Environment.names_global] at hbody
      have hscope : Finishes (fun result after => Applies limit (.declared function) values
          machine.view (result.map Flow.result) after) (Action.inScope .global function.parameters
            values (Eval.body limit fuel function.body) machine) := by
        apply finishes_inScope hbody
        intro result hproceeds
        rw [hm.view_leave_call hframed]
        exact .declared hproceeds
      show Finishes _ ((Action.inScope function.closure function.parameters values
        (Eval.body limit fuel function.body) >>= fun flow => pure flow.result) machine)
      rw [hclosure]
      apply hscope.bind
      · intro fault after happlies
        exact happlies
      · intro flow after _ happlies
        exact happlies

theorem MeantWith.statement_succ (h : MeantWith limit fuel) (node : Stmt)
    (hm : machine.Standing) :
    Finishes (Executes limit node machine.view) (Eval.statement limit (fuel + 1) node machine) := by
  cases node with
  | expression value =>
      apply (h.expression value hm).bind
      · intro fault after hvalue
        exact .expression hvalue
      · intro result after _ hvalue
        exact Executes.expression hvalue
  | print value =>
      apply (h.expression value hm).bind
      · intro fault after hvalue
        exact .printFault hvalue
      · intro result after _ hvalue
        show Finishes _ (Action.bind (Action.print result) _ after)
        rw [Action.bind, Action.print, Action.request]
        cases hwritten : after.output.writeLine result.text with
        | mk outcome output =>
            cases outcome with
            | none => exact Executes.printed hvalue hwritten
            | some fault => exact Executes.unprinted hvalue hwritten
  | var name initial =>
      cases initial with
      | none =>
          show Executes limit _ _ (.ok .normal) (Machine.view _)
          rw [hm.view_define]
          exact .varBare
      | some initial =>
          apply (h.expression initial hm).bind
          · intro fault after hinitial
            exact .varFault hinitial
          · intro value after heq hinitial
            show Executes limit _ _ (.ok .normal) (Machine.view _)
            rw [(standing_of_expression hm heq).1.view_define]
            exact .var hinitial
  | block statements =>
      have hlive := hm.wellFormed.current_live
      have hinner : (machine.enter machine.current [] []).Standing := hm.enter hlive (by simp)
      have hframed := ((Machine.framing.kept limit fuel).body statements _ hinner).2.1
      have hbody := h.body statements hinner
      rw [Machine.view_enter hlive] at hbody
      apply finishes_inScope hbody
      intro result hproceeds
      rw [hm.view_leave_block hframed.toRestored]
      exact .block hproceeds
  | branch condition consequent alternative =>
      apply (h.expression condition hm).bind
      · intro fault after hcondition
        exact .branchFault hcondition
      · intro value middle heq hcondition
        have hmiddle := (standing_of_expression hm heq).1
        cases htruthy : value.isTruthy with
        | true =>
            apply (h.statement consequent hmiddle).mono
            intro result after hconsequent
            exact .consequent hcondition htruthy hconsequent
        | false =>
            cases alternative with
            | none => exact Executes.neither hcondition htruthy
            | some alternative =>
                apply (h.statement alternative hmiddle).mono
                intro result after halternative
                exact .alternative hcondition htruthy halternative
  | loop condition repeated =>
      apply (h.expression condition hm).bind
      · intro fault after hcondition
        exact .loopFault hcondition
      · intro value middle heq hcondition
        have hmiddle := (standing_of_expression hm heq).1
        cases htruthy : value.isTruthy with
        | false => exact Executes.loopDone hcondition htruthy
        | true =>
            apply (h.statement repeated hmiddle).bind
            · intro fault after hround
              exact .loopLeft hcondition htruthy hround (by simp)
            · intro flow later heq hround
              cases flow with
              | returned value => exact Executes.loopLeft hcondition htruthy hround (by simp)
              | normal =>
                  have hlater := standing_of_statement hmiddle heq
                  apply (h.statement (.loop condition repeated) hlater).mono
                  intro result after hloop
                  exact .loopAgain hcondition htruthy hround hloop
  | function name parameters statements =>
      have hmade : ({ machine with supply := machine.supply + 1 } : Machine).Standing :=
        (Machine.framing.made name parameters statements hm).2.1
      have hview := hmade.view_define name.lexeme
        (.callable (.declared ⟨name, parameters, statements, .global, machine.supply⟩))
      show Executes limit _ _ (.ok .normal) (Machine.view _)
      rw [hview]
      exact .function
  | ret keyword value =>
      cases value with
      | none => exact Executes.retBare
      | some value =>
          apply (h.expression value hm).bind
          · intro fault after hvalue
            exact .ret hvalue
          · intro result after _ hvalue
            exact Executes.ret hvalue

theorem MeantWith.body_succ (h : MeantWith limit fuel) (nodes : List Stmt)
    (hm : machine.Standing) :
    Finishes (Proceeds limit nodes machine.view) (Eval.body limit (fuel + 1) nodes machine) := by
  cases nodes with
  | nil =>
      rw [Eval.body]
      exact Proceeds.nil
  | cons first others =>
      rw [Eval.body]
      apply (h.statement first hm).bind
      · intro fault after hfirst
        exact .stop hfirst (by simp)
      · intro flow middle heq hfirst
        cases flow with
        | returned value => exact Proceeds.stop hfirst (by simp)
        | normal =>
            have hmiddle := standing_of_statement hm heq
            apply (h.body others hmiddle).mono
            intro result after hothers
            exact .cons hfirst hothers

variable (limit)

/-- Whatever ends does so as the rules say. -/
theorem meant (fuel : Nat) : MeantWith limit fuel := by
  induction fuel with
  | zero =>
      constructor
      · intro node machine _
        rw [Eval.expression]
        trivial
      · intro nodes machine _
        rw [Eval.each]
        trivial
      · intro function values machine _ _ _
        rw [Eval.call]
        trivial
      · intro node machine _
        rw [Eval.statement]
        trivial
      · intro nodes machine _
        rw [Eval.body]
        trivial
  | succ fuel ih =>
      constructor
      · intro node machine hm
        exact ih.expression_succ node hm
      · intro nodes machine hm
        exact ih.each_succ nodes hm
      · intro function values machine hm hfunction hvalues
        exact ih.call_succ hm hfunction hvalues
      · intro node machine hm
        exact ih.statement_succ node hm
      · intro nodes machine hm
        exact ih.body_succ nodes hm

theorem meant_program (fuel : Nat) (program : Program) (hm : machine.Standing) :
    Finishes (Runs limit program machine.view) (Eval.program limit fuel program machine) := by
  rw [Eval.program]
  apply ((meant limit fuel).body program hm).bind
  · intro fault after hbody
    exact .failed hbody
  · intro flow after _ hbody
    rw [Action.flush, Action.request]
    cases hflush : after.output.flush with
    | mk outcome output =>
        cases outcome with
        | none => exact Runs.flushed hbody hflush
        | some fault => exact Runs.unflushed hbody hflush

end Meaning

end LoxLang
