/-
# What is meant is run

An evaluation that the rules give an end to comes to that end, with any fuel that is
enough, and the machine it leaves shows the setting that the rules say.

The induction is on the derivation. How much fuel is enough for the whole is taken from
its parts, so it does not matter that these take turns on the same machine.
-/

import LoxLang.Proofs.Evaluation.MeaningSound

namespace LoxLang

/-- The end with a result or with a fault. -/
def Exit.ofResult {ε α : Type} : Except ε α → Exit ε α
  | .ok result => .value result
  | .error cause => .fault cause

namespace Meaning

variable {α β : Type}

/-- With enough fuel the action ends with the result, on a machine that shows the setting. -/
def Settles (action : Nat → Action α) (machine : Machine) (result : Except Fault α)
    (shown : Setting) : Prop :=
  ∃ enough after, after.view = shown ∧
    ∀ fuel ≥ enough, action fuel machine = (.ofResult result, after)

variable {action : Nat → Action α} {next : Nat → α → Action β} {machine : Machine}
  {result : Except Fault α} {final : Except Fault β} {middle shown : Setting}

theorem Settles.of_eq {after : Machine} (h : ∀ fuel, action fuel machine = (.ofResult result, after))
    (hview : after.view = shown) : Settles action machine result shown :=
  ⟨0, after, hview, fun fuel _ => h fuel⟩

/-- Whatever takes one unit of fuel and then settles does settle. -/
theorem Settles.succ (h : Settles (fun fuel => action (fuel + 1)) machine result shown) :
    Settles action machine result shown := by
  obtain ⟨enough, after, hview, hrun⟩ := h
  refine ⟨enough + 1, after, hview, fun fuel hfuel => ?_⟩
  obtain ⟨fuel, rfl⟩ : ∃ less, fuel = less + 1 := ⟨fuel - 1, by omega⟩
  exact hrun fuel (by omega)

theorem Settles.bind {value : α} (h : Settles action machine (.ok value) middle)
    (hnext : ∀ fuel after, action fuel machine = (.value value, after) → after.view = middle →
      Settles (fun fuel => next fuel value) after final shown) :
    Settles (fun fuel => action fuel >>= next fuel) machine final shown := by
  obtain ⟨enough, after, hview, hrun⟩ := h
  obtain ⟨more, last, hlast, hlater⟩ := hnext enough after (hrun enough (Nat.le_refl _)) hview
  refine ⟨max enough more, last, hlast, fun fuel hfuel => ?_⟩
  show Action.bind (action fuel) (next fuel) machine = _
  rw [Action.bind, hrun fuel (by omega)]
  exact hlater fuel (by omega)

theorem Settles.bind_fault {fault : Fault} (h : Settles action machine (.error fault) shown) :
    Settles (fun fuel => action fuel >>= next fuel) machine (.error fault) shown := by
  obtain ⟨enough, after, hview, hrun⟩ := h
  refine ⟨enough, after, hview, fun fuel hfuel => ?_⟩
  show Action.bind (action fuel) (next fuel) machine = _
  rw [Action.bind, hrun fuel hfuel]
  rfl

/-- What is made of a result without using the machine settles with it. -/
theorem Settles.bind_ofExcept {token : Token} {make : α → Except RuntimeFault β}
    (h : Settles action machine result shown) :
    Settles (fun fuel => action fuel >>= fun value => Action.ofExcept token (make value)) machine
      (result.bind fun value => (make value).mapError (blame token)) shown := by
  cases result with
  | error fault => exact h.bind_fault
  | ok value =>
      apply h.bind
      intro fuel after _ hview
      apply Settles.of_eq _ hview
      intro fuel
      show Action.ofExcept token (make value) after =
        (.ofResult ((make value).mapError (blame token)), after)
      cases make value <;> rfl

theorem Settles.bind_pure {make : α → β} (h : Settles action machine result shown) :
    Settles (fun fuel => action fuel >>= fun value => pure (make value)) machine
      (result.map make) shown := by
  cases result with
  | error fault => exact h.bind_fault
  | ok value =>
      apply h.bind
      intro fuel after _ hview
      exact .of_eq (fun _ => rfl) hview

theorem Settles.inCall {limit : Option Nat} {paren : Token}
    (hlimit : limit.any (· ≤ machine.callDepth) = false)
    (hrestored : ∀ fuel, Machine.Restored { machine with callDepth := machine.callDepth + 1 }
      (action fuel { machine with callDepth := machine.callDepth + 1 }).2)
    (h : Settles action { machine with callDepth := machine.callDepth + 1 } result shown) :
    Settles (fun fuel => Action.inCall limit paren (action fuel)) machine result
      { shown with callDepth := machine.callDepth } := by
  obtain ⟨enough, inner, hview, hrun⟩ := h
  refine ⟨enough, { inner with callDepth := inner.callDepth - 1 }, ?_, fun fuel hfuel => ?_⟩
  · have hdepth := (hrestored enough).callDepth
    rw [hrun enough (Nat.le_refl _)] at hdepth
    show { inner.view with callDepth := inner.callDepth - 1 } = _
    rw [hview, hdepth]
    rfl
  · show Action.inCall limit paren (action fuel) machine = _
    rw [Action.inCall, hlimit, hrun fuel hfuel]
    rfl

theorem Settles.inScope {enclosing : ScopeId} {names : List Token} {values : List Value}
    {last : Setting} (h : Settles action (machine.enter enclosing names values) result shown)
    (hframed : ∀ fuel, (machine.enter enclosing names values).Framed
      (action fuel (machine.enter enclosing names values)).2)
    (hleave : ∀ inner, (machine.enter enclosing names values).Framed inner → inner.view = shown →
      (machine.leave inner).view = last) :
    Settles (fun fuel => Action.inScope enclosing names values (action fuel)) machine result
      last := by
  obtain ⟨enough, inner, hview, hrun⟩ := h
  have hinner := hframed enough
  rw [hrun enough (Nat.le_refl _)] at hinner
  refine ⟨enough, machine.leave inner, hleave inner hinner hview, fun fuel hfuel => ?_⟩
  show Action.inScope enclosing names values (action fuel) machine = _
  rw [Action.inScope_apply, hrun fuel hfuel]

theorem request_eq {work : Sink → Option SinkFault × Sink} {outcome : Option SinkFault}
    {output : Sink} (hwork : work machine.output = (outcome, output)) :
    Action.request work machine =
      (Exit.ofFault? (outcome.map Fault.sink), { machine with output := output }) := by
  rw [Action.request, hwork]
  cases outcome <;> rfl

theorem print_eq {value : Value} {outcome : Option SinkFault} {output : Sink}
    (hwritten : machine.output.writeLine value.text = (outcome, output)) :
    Action.print value machine =
      (Exit.ofFault? (outcome.map Fault.sink), { machine with output := output }) := by
  rw [Action.print]
  exact request_eq hwritten

theorem Settles.inBlock (h : Settles action (machine.enter machine.current [] []) result shown)
    (hframed : ∀ fuel, (machine.enter machine.current [] []).Framed
      (action fuel (machine.enter machine.current [] [])).2)
    (hm : machine.Standing) :
    Settles (fun fuel => Action.inBlock (action fuel)) machine result
      { shown with names := shown.names.outer } := by
  apply Settles.inScope h hframed
  intro inner hinner hview
  rw [hm.view_leave_block hinner.toRestored, hview]

/-- What does not end normally ends all that it is part of. -/
theorem Settles.bind_of_ne_normal {action next : Nat → Action Flow} {result : Except Fault Flow}
    (h : Settles action machine result shown) (hleft : result ≠ .ok .normal) :
    Settles (fun fuel => action fuel >>= fun flow =>
      match flow with
      | .normal => next fuel
      | .returned value => pure (.returned value)) machine result shown := by
  cases result with
  | error fault => exact h.bind_fault
  | ok flow =>
      cases flow with
      | normal => exact absurd rfl hleft
      | returned value =>
          apply h.bind
          intro fuel after _ hview
          exact .of_eq (fun _ => rfl) hview

variable {limit : Option Nat}

mutual

theorem Evaluates.settles : ∀ {node : Expr} {before : Setting} {result : Except Fault Value}
    {after : Setting}, Evaluates limit node before result after → ∀ {machine : Machine},
      machine.Standing → machine.view = before →
        Settles (fun fuel => Eval.expression limit fuel node) machine result after
  | _, _, _, _, .literal, machine, hm, hview => by
      apply Settles.succ
      exact .of_eq (fun _ => rfl) hview
  | _, _, _, _, .grouping h, machine, hm, hview => by
      apply Settles.succ
      exact h.settles hm hview
  | _, _, _, _, .unary h, machine, hm, hview => by
      apply Settles.succ
      exact (h.settles hm hview).bind_ofExcept
  | _, _, _, _, .leftFault h, machine, hm, hview => by
      apply Settles.succ
      exact (h.settles hm hview).bind_fault
  | _, _, _, _, .binary hleft hright, machine, hm, hview => by
      apply Settles.succ
      apply (hleft.settles hm hview).bind
      intro fuel middle heq hmiddle
      exact (hright.settles (standing_of_expression hm heq).1 hmiddle).bind_ofExcept
  | _, _, _, _, .logicalFault h, machine, hm, hview => by
      apply Settles.succ
      exact (h.settles hm hview).bind_fault
  | _, _, _, _, .decided h hdecides, machine, hm, hview => by
      apply Settles.succ
      apply (h.settles hm hview).bind
      intro fuel after _ hafter
      simp only [hdecides, if_true]
      exact .of_eq (fun _ => rfl) hafter
  | _, _, _, _, .undecided hleft hdecides hright, machine, hm, hview => by
      apply Settles.succ
      apply (hleft.settles hm hview).bind
      intro fuel middle heq hmiddle
      simp only [hdecides, Bool.false_eq_true, if_false]
      exact hright.settles (standing_of_expression hm heq).1 hmiddle
  | _, _, _, _, .bound hfind, machine, hm, hview => by
      apply Settles.succ
      rw [← hview] at hfind
      exact .of_eq (fun _ => hm.lookUp_of_some hfind) hview
  | _, _, _, _, .unbound hfind, machine, hm, hview => by
      apply Settles.succ
      rw [← hview] at hfind
      exact .of_eq (fun _ => hm.lookUp_of_none hfind) hview
  | _, _, _, _, .assignFault h, machine, hm, hview => by
      apply Settles.succ
      exact (h.settles hm hview).bind_fault
  | _, _, _, _, .assigned h hassign, machine, hm, hview => by
      apply Settles.succ
      apply (h.settles hm hview).bind
      intro fuel middle heq hmiddle
      rw [← hmiddle] at hassign ⊢
      obtain ⟨last, hover, hlast⟩ := (standing_of_expression hm heq).1.overwrite_of_some hassign
      apply (Settles.of_eq (fun _ => hover) hlast).bind
      intro fuel after _ hafter
      exact .of_eq (fun _ => rfl) hafter
  | _, _, _, _, .unassigned h hassign, machine, hm, hview => by
      apply Settles.succ
      apply (h.settles hm hview).bind
      intro fuel middle heq hmiddle
      rw [← hmiddle] at hassign
      have hover := (standing_of_expression hm heq).1.overwrite_of_none hassign
      exact (Settles.of_eq (fun _ => hover) hmiddle).bind_fault
  | _, _, _, _, .calleeFault h, machine, hm, hview => by
      apply Settles.succ
      exact (h.settles hm hview).bind_fault
  | _, _, _, _, .notCallable h hnone, machine, hm, hview => by
      apply Settles.succ
      apply (h.settles hm hview).bind
      intro fuel after _ hafter
      simp only [hnone]
      exact .of_eq (fun _ => rfl) hafter
  | _, _, _, _, .argumentsFault h hcallable harguments, machine, hm, hview => by
      apply Settles.succ
      apply (h.settles hm hview).bind
      intro fuel middle heq hmiddle
      simp only [hcallable]
      exact (harguments.settles (standing_of_expression hm heq).1 hmiddle).bind_fault
  | _, _, _, _, .wrongArity h hcallable harguments harity, machine, hm, hview => by
      apply Settles.succ
      apply (h.settles hm hview).bind
      intro fuel middle heq hmiddle
      simp only [hcallable]
      apply (harguments.settles (standing_of_expression hm heq).1 hmiddle).bind
      intro fuel after _ hafter
      simp only [if_neg harity]
      exact .of_eq (fun _ => rfl) hafter
  | _, _, _, _, .stackOverflow h hcallable harguments harity hlimit, machine, hm, hview => by
      apply Settles.succ
      apply (h.settles hm hview).bind
      intro fuel middle heq hmiddle
      simp only [hcallable]
      apply (harguments.settles (standing_of_expression hm heq).1 hmiddle).bind
      intro fuel after _ hafter
      simp only [if_pos harity]
      rw [← hafter] at hlimit ⊢
      refine .of_eq (fun _ => ?_) rfl
      rw [Action.inCall]
      exact if_pos hlimit
  | _, _, _, _, .call h hcallable harguments harity hlimit happlies, machine, hm, hview => by
      apply Settles.succ
      apply (h.settles hm hview).bind
      intro fuel middle heq hmiddle
      obtain ⟨hstanding, hclosed⟩ := standing_of_expression hm heq
      have hfunction := closed_of_callable? hclosed hcallable
      simp only [hcallable]
      apply (harguments.settles hstanding hmiddle).bind
      intro fuel ready heq hready
      obtain ⟨hstanding, hvalues⟩ := standing_of_each hstanding heq
      have hdeeper := Machine.framing.descended hstanding
      have hcall := happlies.settles hdeeper hfunction hvalues (by rw [← hready]; rfl)
      simp only [if_pos harity]
      rw [← hready] at hlimit ⊢
      refine Settles.inCall hlimit (fun fuel => ?_) hcall
      exact ((Machine.framing.kept limit fuel).call hfunction hvalues _ hdeeper).2.1.toRestored

theorem EvaluatesAll.settles : ∀ {nodes : List Expr} {before : Setting}
    {result : Except Fault (List Value)} {after : Setting},
      EvaluatesAll limit nodes before result after → ∀ {machine : Machine},
        machine.Standing → machine.view = before →
          Settles (fun fuel => Eval.each limit fuel nodes) machine result after
  | _, _, _, _, .nil, machine, hm, hview => by
      apply Settles.succ
      exact .of_eq (fun _ => rfl) hview
  | _, _, _, _, .firstFault h, machine, hm, hview => by
      apply Settles.succ
      exact (h.settles hm hview).bind_fault
  | _, _, _, _, .cons h hothers, machine, hm, hview => by
      apply Settles.succ
      apply (h.settles hm hview).bind
      intro fuel middle heq hmiddle
      exact (hothers.settles (standing_of_expression hm heq).1 hmiddle).bind_pure

theorem Applies.settles : ∀ {function : Callable} {values : List Value} {before : Setting}
    {result : Except Fault Value} {after : Setting},
      Applies limit function values before result after → ∀ {machine : Machine},
        machine.Standing → function.Closed → (∀ value ∈ values, value.Closed) →
          machine.view = before →
            Settles (fun fuel => Eval.call limit fuel function values) machine result after
  | _, _, _, _, _, .clock, machine, hm, _, _, hview => by
      apply Settles.succ
      rw [← hview]
      exact .of_eq (fun _ => rfl) rfl
  | _, _, _, _, _, @Applies.declared _ function values _ _ _ h, machine, hm, hfunction, hvalues,
      hview => by
      have hclosure : function.closure = .global := hfunction
      have hlive : ScopeId.global.index < machine.environment.depth :=
        machine.environment.global_live
      have hinner : (machine.enter .global function.parameters values).Standing :=
        hm.enter hlive hvalues
      have hentered : (machine.enter .global function.parameters values).view =
          { machine.view with
            names := ⟨[.bindAll (function.parameters.map Token.lexeme) values []],
              machine.view.names.globals⟩ } := by
        rw [Machine.view_enter hlive, Environment.names_global]
        rfl
      rw [hview] at hentered
      have hscope := Settles.inScope (h.settles hinner hentered)
        (fun fuel => ((Machine.framing.kept limit fuel).body function.body _ hinner).2.1)
        (fun inner hframed hshown => by rw [hm.view_leave_call hframed, hshown, hview])
      apply Settles.succ
      show Settles (fun fuel => Action.inScope function.closure function.parameters values
        (Eval.body limit fuel function.body) >>= fun flow => pure flow.result) _ _ _
      rw [hclosure]
      exact hscope.bind_pure

theorem Executes.settles : ∀ {node : Stmt} {before : Setting} {result : Except Fault Flow}
    {after : Setting}, Executes limit node before result after → ∀ {machine : Machine},
      machine.Standing → machine.view = before →
        Settles (fun fuel => Eval.statement limit fuel node) machine result after
  | _, _, _, _, .expression h, machine, hm, hview => by
      apply Settles.succ
      exact (h.settles hm hview).bind_pure
  | _, _, _, _, .printFault h, machine, hm, hview => by
      apply Settles.succ
      exact (h.settles hm hview).bind_fault
  | _, _, _, _, .printed h hwritten, machine, hm, hview => by
      apply Settles.succ
      apply (h.settles hm hview).bind
      intro fuel after _ hafter
      rw [← hafter] at hwritten ⊢
      apply (Settles.of_eq (fun _ => print_eq hwritten) rfl).bind
      intro fuel last _ hlast
      exact .of_eq (fun _ => rfl) hlast
  | _, _, _, _, .unprinted h hwritten, machine, hm, hview => by
      apply Settles.succ
      apply (h.settles hm hview).bind
      intro fuel after _ hafter
      rw [← hafter] at hwritten ⊢
      exact (Settles.of_eq (fun _ => print_eq hwritten) rfl).bind_fault
  | _, _, _, _, .varBare, machine, hm, hview => by
      apply Settles.succ
      rw [← hview, ← hm.view_define]
      exact .of_eq (fun _ => rfl) rfl
  | _, _, _, _, .varFault h, machine, hm, hview => by
      apply Settles.succ
      exact (h.settles hm hview).bind_fault
  | _, _, _, _, .var h, machine, hm, hview => by
      apply Settles.succ
      apply (h.settles hm hview).bind
      intro fuel after heq hafter
      rw [← hafter, ← (standing_of_expression hm heq).1.view_define]
      exact .of_eq (fun _ => rfl) rfl
  | _, _, _, _, .block h, machine, hm, hview => by
      have hlive := hm.wellFormed.current_live
      have hinner : (machine.enter machine.current [] []).Standing := hm.enter hlive (by simp)
      have hentered : (machine.enter machine.current [] []).view =
          { machine.view with names := machine.view.names.inner [] } := by
        rw [Machine.view_enter hlive]
        rfl
      rw [hview] at hentered
      apply Settles.succ
      refine Settles.inBlock (h.settles hinner hentered) (fun fuel => ?_) hm
      exact ((Machine.framing.kept limit fuel).body _ _ hinner).2.1
  | _, _, _, _, .branchFault h, machine, hm, hview => by
      apply Settles.succ
      exact (h.settles hm hview).bind_fault
  | _, _, _, _, .consequent h htruthy hconsequent, machine, hm, hview => by
      apply Settles.succ
      apply (h.settles hm hview).bind
      intro fuel middle heq hmiddle
      simp only [htruthy, if_true]
      exact hconsequent.settles (standing_of_expression hm heq).1 hmiddle
  | _, _, _, _, .alternative h htruthy halternative, machine, hm, hview => by
      apply Settles.succ
      apply (h.settles hm hview).bind
      intro fuel middle heq hmiddle
      simp only [htruthy, Bool.false_eq_true, if_false]
      exact halternative.settles (standing_of_expression hm heq).1 hmiddle
  | _, _, _, _, .neither h htruthy, machine, hm, hview => by
      apply Settles.succ
      apply (h.settles hm hview).bind
      intro fuel after _ hafter
      simp only [htruthy, Bool.false_eq_true, if_false]
      exact .of_eq (fun _ => rfl) hafter
  | _, _, _, _, .loopFault h, machine, hm, hview => by
      apply Settles.succ
      exact (h.settles hm hview).bind_fault
  | _, _, _, _, .loopDone h htruthy, machine, hm, hview => by
      apply Settles.succ
      apply (h.settles hm hview).bind
      intro fuel after _ hafter
      simp only [htruthy, Bool.false_eq_true, if_false]
      exact .of_eq (fun _ => rfl) hafter
  | _, _, _, _, .loopLeft h htruthy hround hleft, machine, hm, hview => by
      apply Settles.succ
      apply (h.settles hm hview).bind
      intro fuel middle heq hmiddle
      simp only [htruthy, if_true]
      exact (hround.settles (standing_of_expression hm heq).1 hmiddle).bind_of_ne_normal hleft
  | _, _, _, _, .loopAgain h htruthy hround hloop, machine, hm, hview => by
      apply Settles.succ
      apply (h.settles hm hview).bind
      intro fuel middle heq hmiddle
      have hstanding := (standing_of_expression hm heq).1
      simp only [htruthy, if_true]
      apply (hround.settles hstanding hmiddle).bind
      intro fuel later heq hlater
      exact hloop.settles (standing_of_statement hstanding heq) hlater
  | _, _, _, _, @Executes.function _ name parameters body _, machine, hm, hview => by
      have hmade : ({ machine with supply := machine.supply + 1 } : Machine).Standing :=
        (Machine.framing.made name parameters body hm).2.1
      apply Settles.succ
      rw [← hview]
      exact .of_eq (fun _ => rfl) (hmade.view_define _ _)
  | _, _, _, _, .retBare, machine, hm, hview => by
      apply Settles.succ
      exact .of_eq (fun _ => rfl) hview
  | _, _, _, _, .ret h, machine, hm, hview => by
      apply Settles.succ
      exact (h.settles hm hview).bind_pure

theorem Proceeds.settles : ∀ {nodes : List Stmt} {before : Setting} {result : Except Fault Flow}
    {after : Setting}, Proceeds limit nodes before result after → ∀ {machine : Machine},
      machine.Standing → machine.view = before →
        Settles (fun fuel => Eval.body limit fuel nodes) machine result after
  | _, _, _, _, .nil, machine, hm, hview => by
      apply Settles.succ
      exact .of_eq (fun _ => rfl) hview
  | _, _, _, _, .stop h hleft, machine, hm, hview => by
      apply Settles.succ
      exact (h.settles hm hview).bind_of_ne_normal hleft
  | _, _, _, _, .cons h hothers, machine, hm, hview => by
      apply Settles.succ
      apply (h.settles hm hview).bind
      intro fuel middle heq hmiddle
      exact hothers.settles (standing_of_statement hm heq) hmiddle

end

end Meaning

end LoxLang
