/-
# An empty scope is not noticed

A scope that binds nothing makes no difference to what is run inside it, as long as nothing
is declared in it. The two runs are compared by the names in sight, which differ in one
empty map. Calls do not see it at all. A block puts a map of its own in front of it, so
that inside of the block names may be declared again.

So a block whose statements declare no name leaves the very machine that its statements
leave when they are executed without it.
-/

import LoxLang.Proofs.Environment.Gap
import LoxLang.Proofs.Evaluation.MeaningSound

namespace LoxLang

/-- Executing the statement declares no name in the scope that it is executed in. -/
def Stmt.Contained : Stmt → Prop
  | .var _ _ => False
  | .function _ _ _ => False
  | .branch _ consequent none => consequent.Contained
  | .branch _ consequent (some alternative) => consequent.Contained ∧ alternative.Contained
  | .loop _ repeated => repeated.Contained
  | _ => True

/-- The setting with an empty map behind so many of the local ones. -/
def Setting.gap (place : Nat) (shown : Setting) : Setting :=
  { shown with names := shown.names.gap place }

namespace Names

variable {V : Type} {names : Names V}

theorem outer_gap (h : names.locals ≠ []) (place : Nat) :
    (names.gap (place + 1)).outer = names.outer.gap place := by
  obtain ⟨_ | ⟨first, others⟩, globals⟩ := names
  · exact absurd rfl h
  · rfl

end Names

namespace Machine

/-- The machines show the same, but for an empty map that the second has behind so many
local ones. -/
structure Beside (place : Nat) (machine other : Machine) : Prop where
  standing : machine.Standing
  other_standing : other.Standing
  view : other.view = machine.view.gap place

variable {machine other inner : Machine} {place : Nat}

theorem Beside.callDepth (h : Beside place machine other) : other.callDepth = machine.callDepth :=
  congrArg Setting.callDepth h.view

theorem Beside.supply (h : Beside place machine other) : other.supply = machine.supply :=
  congrArg Setting.supply h.view

theorem Beside.clock (h : Beside place machine other) : other.clock = machine.clock :=
  congrArg Setting.clock h.view

theorem Beside.output (h : Beside place machine other) : other.output = machine.output :=
  congrArg Setting.output h.view

theorem Beside.names (h : Beside place machine other) :
    other.view.names = machine.view.names.gap place :=
  congrArg Setting.names h.view

/-- A block has a map of its own. -/
theorem locals_ne_nil (h : machine.Standing)
    (hrestored : (machine.enter machine.current [] []).Restored inner) :
    inner.view.names.locals ≠ [] := by
  have hlive := h.wellFormed.current_live
  have houtward : inner.environment.outward inner.current =
      machine.environment.next :: machine.environment.outward machine.current :=
    hrestored.outward.trans (outward_enter hlive)
  show (inner.environment.outward inner.current).map _ ≠ []
  rw [houtward]
  exact List.cons_ne_nil _ _

theorem Beside.enter_block (h : Beside place machine other) :
    Beside (place + 1) (machine.enter machine.current [] [])
      (other.enter other.current [] []) := by
  have hlive := h.standing.wellFormed.current_live
  have hother := h.other_standing.wellFormed.current_live
  have hvalues : ∀ value ∈ ([] : List Value), value.Closed := List.forall_mem_nil _
  refine ⟨h.standing.enter hlive hvalues, h.other_standing.enter hother hvalues, ?_⟩
  rw [view_enter hlive, view_enter hother]
  show { other.view with names := other.view.names.inner [] } = Setting.gap (place + 1) _
  rw [h.view]
  rfl

/-- A call sees none of the local names that differ. -/
theorem Beside.enter_call (h : Beside place machine other) (names : List Token)
    {values : List Value} (hvalues : ∀ value ∈ values, value.Closed) :
    Beside 2 (machine.enter .global names values) (other.enter .global names values) := by
  have hlive : ScopeId.global.index < machine.environment.depth := machine.environment.global_live
  have hother : ScopeId.global.index < other.environment.depth := other.environment.global_live
  refine ⟨h.standing.enter hlive hvalues, h.other_standing.enter hother hvalues, ?_⟩
  have hglobals : other.environment.names .global = machine.environment.names .global := by
    rw [Environment.names_global, Environment.names_global]
    exact congrArg (fun names => Names.mk [] names.globals) h.names
  rw [view_enter hlive, view_enter hother, hglobals, Environment.names_global, h.view]
  rfl

theorem Beside.descend (h : Beside place machine other) :
    Beside place { machine with callDepth := machine.callDepth + 1 }
      { other with callDepth := other.callDepth + 1 } :=
  ⟨framing.descended h.standing, framing.descended h.other_standing,
    congrArg (fun shown => { shown with callDepth := shown.callDepth + 1 }) h.view⟩

/-- What frames a machine is told by what it shows. -/
theorem Framed.ext {first second : Machine} (hfirst : machine.Framed first)
    (hsecond : machine.Framed second) (hview : first.view = second.view) : first = second := by
  have hcurrent : first.current = second.current := hfirst.current.trans hsecond.current.symm
  have houtward : first.environment.outward first.current =
      second.environment.outward second.current :=
    hfirst.toRestored.outward.trans hsecond.toRestored.outward.symm
  have hnames : first.environment.names first.current = second.environment.names second.current :=
    congrArg Setting.names hview
  have henvironment : first.environment = second.environment := by
    apply Environment.ext_of_scopes
    · exact hfirst.depth.trans hsecond.depth.symm
    · intro scope
      exact (hfirst.enclosing scope).trans (hsecond.enclosing scope).symm
    · intro scope
      by_cases hglobal : scope = .global
      · rw [hglobal]
        exact congrArg Names.globals hnames
      · by_cases hseen : scope ∈ machine.environment.outward machine.current
        · rw [← hsecond.toRestored.outward] at hseen
          have hlocals := congrArg Names.locals hnames
          simp only [Environment.names, houtward] at hlocals
          exact List.map_inj_left.mp hlocals scope hseen
        · rw [hfirst.unseen hglobal hseen, hsecond.unseen hglobal hseen]
  have hcallDepth : first.callDepth = second.callDepth := congrArg Setting.callDepth hview
  have hsupply : first.supply = second.supply := congrArg Setting.supply hview
  have hclock : first.clock = second.clock := congrArg Setting.clock hview
  have houtput : first.output = second.output := congrArg Setting.output hview
  cases first
  cases second
  cases henvironment
  cases hcurrent
  cases hcallDepth
  cases hsupply
  cases hclock
  cases houtput
  rfl

end Machine

namespace Action

open Machine

variable {α β : Type} {P : α → Prop} {Q : β → Prop} {place : Nat}

/-- The action does the same on a machine that has an empty map more. -/
structure Overlooks (place : Nat) (P : α → Prop) (action : Action α) : Prop where
  keeps : framing.Keeps .executing P action
  same {machine other : Machine} : Beside place machine other →
    (action other).1 = (action machine).1 ∧
      (action other).2.view = (action machine).2.view.gap place

theorem Overlooks.beside {action : Action α} (h : Overlooks place P action)
    {machine other : Machine} (hbeside : Beside place machine other) :
    Beside place (action machine).2 (action other).2 :=
  ⟨(h.keeps machine hbeside.standing).1, (h.keeps other hbeside.other_standing).1,
    (h.same hbeside).2⟩

/-! ## Actions that overlook an empty scope -/

theorem overlooks_of_unchanged {action : Action α} (hkeeps : framing.Keeps .executing P action)
    (hsame : ∀ machine, (action machine).2 = machine)
    (hexit : ∀ machine other : Machine, Beside place machine other →
      (action other).1 = (action machine).1) : Overlooks place P action := by
  refine ⟨hkeeps, fun {machine other} hbeside => ⟨hexit machine other hbeside, ?_⟩⟩
  rw [hsame, hsame]
  exact hbeside.view

theorem overlooks_pure {result : α} (h : P result) : Overlooks place P (pure result) :=
  overlooks_of_unchanged (Discipline.keeps_pure h) (fun _ => rfl) fun _ _ _ => rfl

theorem overlooks_outOfFuel : Overlooks place P outOfFuel :=
  overlooks_of_unchanged Discipline.keeps_outOfFuel (fun _ => rfl) fun _ _ _ => rfl

theorem overlooks_raise (token : Token) (fault : RuntimeFault) :
    Overlooks place P (raise token fault) :=
  overlooks_of_unchanged Discipline.keeps_raise (fun _ => rfl) fun _ _ _ => rfl

theorem overlooks_ofExcept {token : Token} {outcome : Except RuntimeFault α}
    (h : ∀ result, outcome = .ok result → P result) :
    Overlooks place P (.ofExcept token outcome) := by
  cases outcome with
  | ok result => exact overlooks_pure (h result rfl)
  | error fault => exact overlooks_raise token fault

theorem Overlooks.bind {first : Action α} {next : α → Action β} (hfirst : Overlooks place P first)
    (hnext : ∀ result, P result → Overlooks place Q (next result)) :
    Overlooks place Q (first >>= next) := by
  refine ⟨hfirst.keeps.bind fun result hresult => (hnext result hresult).keeps, ?_⟩
  intro machine other hbeside
  have hresult := (hfirst.keeps machine hbeside.standing).2.2
  have hafter := hfirst.beside hbeside
  have hexit := (hfirst.same hbeside).1
  show (Action.bind first next other).1 = (Action.bind first next machine).1 ∧
    (Action.bind first next other).2.view = (Action.bind first next machine).2.view.gap place
  rw [Action.bind, Action.bind]
  revert hresult hafter hexit
  rcases first machine with ⟨exit, after⟩
  rcases first other with ⟨exit', after'⟩
  intro hresult hafter hexit
  cases hexit
  cases exit with
  | value result => exact (hnext result (hresult result rfl)).same hafter
  | fault cause => exact ⟨rfl, hafter.view⟩
  | outOfFuel => exact ⟨rfl, hafter.view⟩

theorem Overlooks.ite {condition : Prop} [Decidable condition] {first second : Action α}
    (hfirst : Overlooks place P first) (hsecond : Overlooks place P second) :
    Overlooks place P (if condition then first else second) := by
  split
  · exact hfirst
  · exact hsecond

theorem overlooks_lookUp (name : Token) : Overlooks place Value.Closed (lookUp name) := by
  refine ⟨Discipline.keeps_lookUp, fun {machine other} hbeside => ?_⟩
  have hfind : other.view.names.find? name.lexeme = machine.view.names.find? name.lexeme := by
    rw [hbeside.names, Names.find?_gap]
  cases hfound : machine.view.names.find? name.lexeme with
  | some value =>
      rw [hbeside.standing.lookUp_of_some hfound,
        hbeside.other_standing.lookUp_of_some (hfind.trans hfound)]
      exact ⟨rfl, hbeside.view⟩
  | none =>
      rw [hbeside.standing.lookUp_of_none hfound,
        hbeside.other_standing.lookUp_of_none (hfind.trans hfound)]
      exact ⟨rfl, hbeside.view⟩

theorem overlooks_overwrite (name : Token) {value : Value} (hvalue : value.Closed) :
    Overlooks place (fun _ => True) (overwrite name value) := by
  refine ⟨(Discipline.keeps_overwrite hvalue).executing, fun {machine other} hbeside => ?_⟩
  have hassign : other.view.names.assign name.lexeme value =
      (machine.view.names.assign name.lexeme value).map (Names.gap place) := by
    rw [hbeside.names, Names.assign_gap]
  cases hassigned : machine.view.names.assign name.lexeme value with
  | some names =>
      rw [hassigned] at hassign
      obtain ⟨after, hafter, hview⟩ := hbeside.standing.overwrite_of_some hassigned
      obtain ⟨after', hafter', hview'⟩ := hbeside.other_standing.overwrite_of_some hassign
      rw [hafter, hafter', hview, hview', hbeside.view]
      exact ⟨rfl, rfl⟩
  | none =>
      rw [hassigned] at hassign
      rw [hbeside.standing.overwrite_of_none hassigned,
        hbeside.other_standing.overwrite_of_none hassign]
      exact ⟨rfl, hbeside.view⟩

/-- What is declared goes to a map in front of the empty one. -/
theorem overlooks_declare (name : Token) {value : Value} (hvalue : value.Closed) :
    Overlooks (place + 1) (fun _ => True) (declare name value) := by
  refine ⟨Discipline.keeps_declare hvalue, fun {machine other} hbeside => ⟨rfl, ?_⟩⟩
  rw [declare, declare]
  show view { other with environment := _ } = (view { machine with environment := _ }).gap _
  rw [hbeside.standing.view_define, hbeside.other_standing.view_define, hbeside.view]
  show Setting.mk _ _ _ _ _ = Setting.mk _ _ _ _ _
  rw [Setting.gap, Names.declare_gap]

theorem overlooks_makeFunction (name : Token) (parameters : List Token) (body : List Stmt) :
    Overlooks place Value.Closed (makeFunction name parameters body) := by
  refine ⟨Discipline.keeps_makeFunction.executing, fun {machine other} hbeside => ?_⟩
  rw [makeFunction, makeFunction, hbeside.supply]
  exact ⟨rfl, congrArg (fun shown => { shown with supply := machine.supply + 1 }) hbeside.view⟩

theorem overlooks_request (work : Sink → Option SinkFault × Sink) :
    Overlooks place (fun _ => True) (request work) := by
  refine ⟨Discipline.keeps_request.executing, fun {machine other} hbeside => ?_⟩
  rw [request, request, hbeside.output]
  rcases work machine.output with ⟨_ | fault, output⟩
  · exact ⟨rfl, congrArg (fun shown => { shown with output := output }) hbeside.view⟩
  · exact ⟨rfl, congrArg (fun shown => { shown with output := output }) hbeside.view⟩

theorem overlooks_runBuiltin (builtin : Builtin) :
    Overlooks place Value.Closed (runBuiltin builtin) := by
  refine ⟨Discipline.keeps_runBuiltin.executing, fun {machine other} hbeside => ?_⟩
  cases builtin with
  | clock =>
      exact ⟨congrArg (fun clock : Clock => Exit.value (Value.number clock.seconds)) hbeside.clock,
        congrArg (fun shown : Setting => { shown with clock := shown.clock.read }) hbeside.view⟩

/-- A block may declare names also if the empty scope is the current one outside of it. -/
theorem Overlooks.inBlock {action : Action α} (h : Overlooks (place + 1) P action) :
    Overlooks place P (.inBlock action) := by
  refine ⟨h.keeps.inBlock.executing, fun {machine other} hbeside => ?_⟩
  have hentered := hbeside.enter_block
  obtain ⟨hexit, hview⟩ := h.same hentered
  have hframed := (h.keeps _ hentered.standing).2.1
  have hframed' := (h.keeps _ hentered.other_standing).2.1
  refine ⟨hexit, ?_⟩
  show (other.leave (action (other.enter other.current [] [])).2).view =
    (machine.leave (action (machine.enter machine.current [] [])).2).view.gap place
  rw [hbeside.standing.view_leave_block hframed.toRestored,
    hbeside.other_standing.view_leave_block hframed'.toRestored, hview]
  show Setting.mk _ _ _ _ _ = Setting.mk _ _ _ _ _
  rw [Setting.gap, Names.outer_gap (locals_ne_nil hbeside.standing hframed.toRestored)]

/-- The body of a function sees neither the empty scope nor any other of the caller's. -/
theorem Overlooks.inScope {action : Action α} (h : Overlooks 2 P action) {function : Function}
    (hclosed : function.closure = .global) {values : List Value}
    (hvalues : ∀ value ∈ values, value.Closed) :
    Overlooks place P (.inScope function.closure function.parameters values action) := by
  constructor
  · intro machine hstanding
    exact h.keeps.inScope hstanding (.inr ⟨function, hclosed, rfl⟩) hvalues
  · intro machine other hbeside
    have hentered := hbeside.enter_call function.parameters hvalues
    obtain ⟨hexit, hview⟩ := h.same hentered
    have hframed := (h.keeps _ hentered.standing).2.1
    have hframed' := (h.keeps _ hentered.other_standing).2.1
    rw [hclosed, inScope_apply, inScope_apply]
    refine ⟨hexit, ?_⟩
    show (other.leave _).view = (machine.leave _).view.gap place
    rw [hbeside.standing.view_leave_call hframed, hbeside.other_standing.view_leave_call hframed',
      hview, hbeside.names]
    rfl

theorem Overlooks.inCall {action : Action α} (h : Overlooks place P action) (limit : Option Nat)
    (paren : Token) : Overlooks place P (.inCall limit paren action) := by
  have hkeeps : framing.Keeps .evaluating P action := h.keeps
  refine ⟨hkeeps.inCall.executing, fun {machine other} hbeside => ?_⟩
  have hlimit : limit.any (· ≤ other.callDepth) = limit.any (· ≤ machine.callDepth) := by
    rw [hbeside.callDepth]
  rw [Action.inCall, Action.inCall, hlimit]
  split
  · exact (overlooks_raise (P := P) paren .stackOverflow).same hbeside
  · obtain ⟨hexit, hview⟩ := h.same hbeside.descend
    exact ⟨hexit, congrArg (fun shown => { shown with callDepth := shown.callDepth - 1 }) hview⟩

end Action

namespace Eval

open LoxLang.Action Machine

variable (limit : Option Nat)

/-- With the given fuel, all of evaluation overlooks an empty scope that it does not declare
names in. -/
structure OverlooksWith (fuel : Nat) : Prop where
  expression (node : Expr) (place : Nat) :
    Overlooks place Value.Closed (Eval.expression limit fuel node)
  each (nodes : List Expr) (place : Nat) :
    Overlooks place framing.FitAll (Eval.each limit fuel nodes)
  call {function : Callable} {values : List Value} (place : Nat) : function.Closed →
    framing.FitAll values → Overlooks place Value.Closed (Eval.call limit fuel function values)
  statement (node : Stmt) (place : Nat) : (place = 0 → node.Contained) →
    Overlooks place framing.FitFlow (Eval.statement limit fuel node)
  body (nodes : List Stmt) (place : Nat) : (place = 0 → ∀ node ∈ nodes, node.Contained) →
    Overlooks place framing.FitFlow (Eval.body limit fuel nodes)

variable {limit} {fuel : Nat}

theorem OverlooksWith.expression_succ (h : OverlooksWith limit fuel) (node : Expr) (place : Nat) :
    Overlooks place Value.Closed (Eval.expression limit (fuel + 1) node) := by
  rw [Eval.expression.eq_def]
  cases node with
  | literal value =>
      exact overlooks_pure (Value.closed_of_callable? (Discipline.callable?_ofLiteral value))
  | grouping inner => exact h.expression inner place
  | unary operator operand =>
      apply (h.expression operand place).bind
      intro value _
      exact overlooks_ofExcept fun result hresult =>
        Value.closed_of_callable? (Discipline.callable?_of_applyUnary hresult)
  | binary left operator right =>
      apply (h.expression left place).bind
      intro first _
      apply (h.expression right place).bind
      intro second _
      exact overlooks_ofExcept fun result hresult =>
        Value.closed_of_callable? (Discipline.callable?_of_applyBinary hresult)
  | logical left operator right =>
      apply (h.expression left place).bind
      intro value hvalue
      exact (overlooks_pure hvalue).ite (h.expression right place)
  | «variable» name => exact overlooks_lookUp name
  | assign name value =>
      apply (h.expression value place).bind
      intro result hresult
      exact (overlooks_overwrite name hresult).bind fun _ _ => overlooks_pure hresult
  | call callee paren arguments =>
      apply (h.expression callee place).bind
      intro value hvalue
      split
      next => exact overlooks_raise paren .notCallable
      next function hfunction =>
        have hclosed : function.Closed := Meaning.closed_of_callable? hvalue hfunction
        apply (h.each arguments place).bind
        intro values hvalues
        exact ((h.call place hclosed hvalues).inCall limit paren).ite (overlooks_raise paren _)

theorem OverlooksWith.each_succ (h : OverlooksWith limit fuel) (nodes : List Expr) (place : Nat) :
    Overlooks place framing.FitAll (Eval.each limit (fuel + 1) nodes) := by
  cases nodes with
  | nil =>
      rw [Eval.each]
      apply overlooks_pure
      intro value hvalue
      cases hvalue
  | cons first others =>
      rw [Eval.each]
      apply (h.expression first place).bind
      intro value hvalue
      apply (h.each others place).bind
      intro values hvalues
      exact overlooks_pure (List.forall_mem_cons.mpr ⟨hvalue, hvalues⟩)

theorem OverlooksWith.call_succ (h : OverlooksWith limit fuel) {function : Callable}
    {values : List Value} (place : Nat) (hclosed : function.Closed)
    (hvalues : framing.FitAll values) :
    Overlooks place Value.Closed (Eval.call limit (fuel + 1) function values) := by
  rw [Eval.call.eq_def]
  cases function with
  | native builtin identity => exact overlooks_runBuiltin builtin
  | declared function =>
      have hbody : Overlooks place framing.FitFlow (.inScope function.closure function.parameters
          values (Eval.body limit fuel function.body)) :=
        (h.body function.body 2 (by simp)).inScope hclosed hvalues
      exact hbody.bind fun flow hflow => overlooks_pure hflow

theorem OverlooksWith.orNil (h : OverlooksWith limit fuel) (node : Option Expr) (place : Nat) :
    Overlooks place Value.Closed (Eval.orNil limit fuel node) := by
  cases node with
  | none => exact overlooks_pure trivial
  | some node => exact h.expression node place

theorem OverlooksWith.statement_succ (h : OverlooksWith limit fuel) (node : Stmt) (place : Nat)
    (hcontained : place = 0 → node.Contained) :
    Overlooks place framing.FitFlow (Eval.statement limit (fuel + 1) node) := by
  have hnormal : Overlooks place framing.FitFlow (Pure.pure .normal) := overlooks_pure trivial
  rw [Eval.statement.eq_def]
  cases node with
  | expression value => exact (h.expression value place).bind fun _ _ => hnormal
  | print value =>
      apply (h.expression value place).bind
      intro result _
      exact (overlooks_request _).bind fun _ _ => hnormal
  | var name initial =>
      obtain ⟨before, rfl⟩ := Nat.exists_eq_succ_of_ne_zero hcontained
      show Overlooks _ _ (Eval.statement limit (fuel + 1) (.var name initial))
      rw [Eval.statement_var]
      apply (h.orNil initial (before + 1)).bind
      intro value hvalue
      exact (overlooks_declare name hvalue).bind fun _ _ => hnormal
  | block statements => exact (h.body statements (place + 1) (by simp)).inBlock
  | branch condition consequent alternative =>
      apply (h.expression condition place).bind
      intro value _
      cases alternative with
      | none => exact (h.statement consequent place hcontained).ite hnormal
      | some alternative =>
          exact (h.statement consequent place fun hplace => (hcontained hplace).1).ite
            (h.statement alternative place fun hplace => (hcontained hplace).2)
  | loop condition repeated =>
      apply (h.expression condition place).bind
      intro value _
      refine Overlooks.ite ?_ hnormal
      apply (h.statement repeated place hcontained).bind
      intro flow hflow
      cases flow with
      | normal => exact h.statement (.loop condition repeated) place hcontained
      | returned value => exact overlooks_pure hflow
  | function name parameters statements =>
      obtain ⟨before, rfl⟩ := Nat.exists_eq_succ_of_ne_zero hcontained
      apply (overlooks_makeFunction name parameters statements).bind
      intro function hfunction
      exact (overlooks_declare name hfunction).bind fun _ _ => hnormal
  | ret keyword value =>
      show Overlooks _ _ (Eval.statement limit (fuel + 1) (.ret keyword value))
      rw [Eval.statement_ret]
      apply (h.orNil value place).bind
      intro result hresult
      exact overlooks_pure hresult

theorem OverlooksWith.body_succ (h : OverlooksWith limit fuel) (nodes : List Stmt) (place : Nat)
    (hcontained : place = 0 → ∀ node ∈ nodes, node.Contained) :
    Overlooks place framing.FitFlow (Eval.body limit (fuel + 1) nodes) := by
  cases nodes with
  | nil =>
      rw [Eval.body]
      exact overlooks_pure trivial
  | cons first others =>
      rw [Eval.body]
      apply (h.statement first place fun hplace =>
        hcontained hplace first List.mem_cons_self).bind
      intro flow hflow
      cases flow with
      | normal =>
          exact h.body others place fun hplace node hnode =>
            hcontained hplace node (List.mem_cons_of_mem _ hnode)
      | returned value => exact overlooks_pure hflow

variable (limit)

/-- All of evaluation overlooks an empty scope that it does not declare names in. -/
theorem overlooks (fuel : Nat) : OverlooksWith limit fuel := by
  induction fuel with
  | zero =>
      constructor
      · intro node place
        rw [Eval.expression]
        exact overlooks_outOfFuel
      · intro nodes place
        rw [Eval.each]
        exact overlooks_outOfFuel
      · intro function values place _ _
        rw [Eval.call]
        exact overlooks_outOfFuel
      · intro node place _
        rw [Eval.statement]
        exact overlooks_outOfFuel
      · intro nodes place _
        rw [Eval.body]
        exact overlooks_outOfFuel
  | succ fuel ih =>
      exact ⟨ih.expression_succ, ih.each_succ, ih.call_succ, ih.statement_succ, ih.body_succ⟩

end Eval

namespace Action

open Machine

variable {α : Type} {P : α → Prop} {action : Action α} {machine : Machine}

/-- A block around what overlooks an empty scope is no block. -/
theorem Overlooks.inBlock_eq (h : Overlooks 0 P action) (hm : machine.Standing) :
    Action.inBlock action machine = action machine := by
  have hlive := hm.wellFormed.current_live
  have hentered : Beside 0 machine (machine.enter machine.current [] []) :=
    ⟨hm, hm.enter hlive (List.forall_mem_nil _), view_enter hlive⟩
  obtain ⟨hexit, hview⟩ := h.same hentered
  have hframed := (h.keeps machine hm).2.1
  have hframed' := (h.keeps _ hentered.other_standing).2.1
  have hleft : machine.leave (action (machine.enter machine.current [] [])).2 =
      (action machine).2 := by
    apply Framed.ext (hframed'.leave hm (.inl rfl)) hframed
    rw [hm.view_leave_block hframed'.toRestored, hview]
    rfl
  exact Prod.ext hexit hleft

end Action

namespace Eval

variable {limit : Option Nat} {fuel : Nat} {machine : Machine}

/-- A block of statements that declare no names is no more than the statements. -/
theorem block_of_contained (hm : machine.Standing) {nodes : List Stmt}
    (hcontained : ∀ node ∈ nodes, node.Contained) :
    statement limit (fuel + 1) (.block nodes) machine = body limit fuel nodes machine :=
  ((overlooks limit fuel).body nodes 0 fun _ => hcontained).inBlock_eq hm

end Eval

end LoxLang
