/-
# Calls are isolated from their callers

A call of a function that closes over the global scope sees the parameters and the global
scope, and no local scope of where it is called. So two machines that differ in nothing
but their local scopes and in which of these is current cannot be told apart by a call,
whatever the clock shows while it runs: it ends on both or on neither, and if it ends then
in the same way. The local scopes that were live before it are left as they were, whether
it ends or not.

Termination and results are read off the rules, where the body of a function is given
nothing of the caller's local names; that the scopes are left alone is read off the
machine.
-/

import LoxLang.Proofs.Evaluation.Refinement

namespace LoxLang

namespace Machine

/-- The machines have the same global scope, the same calls in progress, the same supply
of identities and the same output. -/
structure Alike (machine other : Machine) : Prop where
  globals : machine.environment.bindingsAt .global = other.environment.bindingsAt .global
  callDepth : machine.callDepth = other.callDepth
  supply : machine.supply = other.supply
  output : machine.output = other.output

/-- The machine, about to be shown what the clock shows. -/
def under (machine : Machine) (clock : Clock) : Machine :=
  { machine with clock := clock }

/-- The setting that shows the local names of one machine and is otherwise another. -/
def viewFrom (machine : Machine) (shown : Setting) : Setting :=
  { shown with names := ⟨machine.view.names.locals, shown.names.globals⟩ }

variable {machine other : Machine}

theorem Alike.symm (h : machine.Alike other) : other.Alike machine :=
  ⟨h.globals.symm, h.callDepth.symm, h.supply.symm, h.output.symm⟩

theorem Alike.under (h : machine.Alike other) (clock : Clock) :
    (machine.under clock).Alike (other.under clock) :=
  ⟨h.globals, h.callDepth, h.supply, h.output⟩

/-- The clock has nothing to do with how the scopes stand. -/
theorem Standing.under (h : machine.Standing) (clock : Clock) : (machine.under clock).Standing :=
  ⟨h.wellFormed.restored ⟨rfl, rfl, rfl, fun _ => rfl⟩ fun _ => h.wellFormed.closed, h.rooted⟩

/-- Machines with the same clock are alike if, seen with the same local names, they show
the same setting. -/
theorem alike_iff_viewFrom :
    machine.Alike other ∧ machine.clock = other.clock ↔
      other.viewFrom machine.view = other.view := by
  constructor
  · rintro ⟨⟨hglobals, hdepth, hsupply, houtput⟩, hclock⟩
    show Setting.mk ⟨_, machine.environment.bindingsAt .global⟩ machine.callDepth machine.supply
      machine.clock machine.output = _
    rw [hglobals, hdepth, hsupply, hclock, houtput]
    rfl
  · intro h
    exact ⟨⟨congrArg (fun shown => shown.names.globals) h, congrArg Setting.callDepth h,
      congrArg Setting.supply h, congrArg Setting.output h⟩, congrArg Setting.clock h⟩

variable {function : Function} {values : List Value} {limit : Option Nat}

/-! ## Local scopes are left alone -/

/-- However a call ends, the local scopes that were live bind what they bound. -/
theorem Standing.bindingsAt_call (h : machine.Standing) (hclosed : function.closure = .global)
    (hvalues : ∀ value ∈ values, value.Closed) (fuel : Nat) {scope : ScopeId}
    (hlocal : scope ≠ .global) (hlive : scope.index < machine.environment.depth) :
    (Eval.call limit fuel (.declared function) values machine).2.environment.bindingsAt scope =
      machine.environment.bindingsAt scope := by
  cases fuel with
  | zero =>
      rw [Eval.call]
      rfl
  | succ fuel =>
      have hglobal : ScopeId.global.index < machine.environment.depth :=
        machine.environment.global_live
      have hinner : (machine.enter .global function.parameters values).Standing :=
        h.enter hglobal hvalues
      have hframed := ((framing.kept limit fuel).body function.body _ hinner).2.1
      -- of the local scopes the body sees only that of the parameters
      have hunseen : scope ∉ (machine.enter .global function.parameters values).environment.outward
          machine.environment.next := by
        rw [outward_enter hglobal, Environment.outward_global, List.mem_singleton]
        exact Environment.ne_next hlive
      rw [Eval.call_leaves, bindingsAt_leave hlive, hclosed, hframed.unseen hlocal hunseen,
        bindingsAt_enter, if_neg (Environment.ne_next hlive).symm]

end Machine

/-! ## Results do not depend on local scopes -/

namespace Meaning

variable {limit : Option Nat} {function : Function} {values : List Value}
  {before after : Setting} {result : Except Fault Value}

/-- What a function is applied in matters only for its global names. -/
theorem Applies.of_caller (h : Applies limit (.declared function) values before result after)
    (locals : List (Bindings Value)) :
    Applies limit (.declared function) values
      { before with names := ⟨locals, before.names.globals⟩ } result
      { after with names := ⟨locals, after.names.globals⟩ } := by
  cases h with
  | @declared _ _ _ inner _ h =>
      show Applies limit (.declared function) values _ _
        { inner with names := ⟨locals, inner.names.globals⟩ }
      exact .declared h

theorem Settles.unique {α : Type} {action : Nat → Action α} {machine : Machine}
    {first second : Except Fault α} {shown other : Setting}
    (h : Settles action machine first shown) (hother : Settles action machine second other) :
    first = second ∧ shown = other := by
  obtain ⟨enough, after, rfl, hrun⟩ := h
  obtain ⟨more, last, rfl, hlast⟩ := hother
  have heq := (hrun (max enough more) (Nat.le_max_left _ _)).symm.trans
    (hlast (max enough more) (Nat.le_max_right _ _))
  obtain ⟨hexit, rfl⟩ := Prod.mk.inj heq
  refine ⟨?_, rfl⟩
  cases first <;> cases second <;> cases hexit <;> rfl

end Meaning

namespace Eval

/-- Given enough fuel, the call ends with the result and leaves the machine `after`. -/
def CallEnds (limit : Option Nat) (function : Function) (values : List Value) (machine : Machine)
    (result : Except Fault Value) (after : Machine) : Prop :=
  ∃ fuel, call limit fuel (.declared function) values machine = (.ofResult result, after)

variable {limit : Option Nat} {function : Function} {values : List Value}
  {machine other after : Machine} {result : Except Fault Value}

/-- A call that ends does so as the rules say. -/
theorem CallEnds.applies (h : CallEnds limit function values machine result after)
    (hm : machine.Standing) (hclosed : function.closure = .global)
    (hvalues : ∀ value ∈ values, value.Closed) :
    Meaning.Applies limit (.declared function) values machine.view result after.view := by
  obtain ⟨fuel, heq⟩ := h
  have hcallable : (Callable.declared function).Closed := hclosed
  have hfinishes := (Meaning.meant limit fuel).call hm hcallable hvalues
  rw [heq] at hfinishes
  cases result with
  | ok value => exact hfinishes
  | error fault => exact hfinishes

/-- A call that ends on one machine settles on every one that is alike, with the same
result, and there it shows what it showed on the first. -/
theorem CallEnds.settles (h : CallEnds limit function values machine result after)
    (hm : machine.Standing) (hother : other.Standing) (halike : machine.Alike other)
    (hclock : machine.clock = other.clock) (hclosed : function.closure = .global)
    (hvalues : ∀ value ∈ values, value.Closed) :
    Meaning.Settles (fun fuel => call limit fuel (.declared function) values) other result
      (other.viewFrom after.view) := by
  have happlies := (h.applies hm hclosed hvalues).of_caller other.view.names.locals
  have hview : other.viewFrom machine.view = other.view :=
    Machine.alike_iff_viewFrom.mp ⟨halike, hclock⟩
  exact Meaning.Applies.settles happlies hother hclosed hvalues hview.symm

theorem CallEnds.exists_of_settles {shown : Setting}
    (h : Meaning.Settles (fun fuel => call limit fuel (.declared function) values) machine result
      shown) : ∃ after, CallEnds limit function values machine result after := by
  obtain ⟨enough, after, _, hrun⟩ := h
  exact ⟨after, enough, hrun enough (Nat.le_refl _)⟩

/-- A call cannot tell apart two machines that have the same global scope and agree in the
calls in progress, the supply of identities and the output, whatever local scopes they
have, whichever of these is current, and whatever the clock shows during the call. It ends
on both or on neither, with the same value or the same fault, and leaves machines that
agree in the same way, output included. On each of them the local scopes that were live
before bind afterwards what they bound. -/
theorem call_isolated (limit : Option Nat) (hm : machine.Standing) (hother : other.Standing)
    (halike : machine.Alike other) (function : Function) (hclosed : function.closure = .global)
    (values : List Value) (hvalues : ∀ value ∈ values, value.Closed) (clock : Clock) :
    (∀ result, (∃ after, CallEnds limit function values (machine.under clock) result after) ↔
      ∃ after, CallEnds limit function values (other.under clock) result after) ∧
    (∀ result after result' after',
      CallEnds limit function values (machine.under clock) result after →
      CallEnds limit function values (other.under clock) result' after' →
        result = result' ∧ after.Alike after') ∧
    (∀ fuel (scope : ScopeId), scope ≠ .global →
      (scope.index < machine.environment.depth →
        (call limit fuel (.declared function) values
            (machine.under clock)).2.environment.bindingsAt scope =
          machine.environment.bindingsAt scope) ∧
      (scope.index < other.environment.depth →
        (call limit fuel (.declared function) values
            (other.under clock)).2.environment.bindingsAt scope =
          other.environment.bindingsAt scope)) := by
  replace halike := halike.under clock
  replace hm := hm.under clock
  replace hother := hother.under clock
  refine ⟨fun result => ⟨?forth, ?back⟩, ?same, ?frame⟩
  case forth =>
    rintro ⟨after, h⟩
    exact CallEnds.exists_of_settles (h.settles hm hother halike rfl hclosed hvalues)
  case back =>
    rintro ⟨after, h⟩
    exact CallEnds.exists_of_settles (h.settles hother hm halike.symm rfl hclosed hvalues)
  case same =>
    intro result after result' after' h h'
    have hsettles := h.settles hm hother halike rfl hclosed hvalues
    have hsettles' : Meaning.Settles _ (other.under clock) result' after'.view :=
      (h'.applies hother hclosed hvalues).settles hother hclosed hvalues rfl
    obtain ⟨rfl, hshown⟩ := hsettles.unique hsettles'
    refine ⟨rfl, (Machine.alike_iff_viewFrom.mpr ?_).1⟩
    have hlocals : (other.under clock).view.names.locals = after'.view.names.locals :=
      congrArg (fun shown => shown.names.locals) hshown
    rw [← hshown, Machine.viewFrom, ← hlocals]
    rfl
  case frame =>
    intro fuel scope hlocal
    exact ⟨fun hlive => hm.bindingsAt_call hclosed hvalues fuel hlocal hlive,
      fun hlive => hother.bindingsAt_call hclosed hvalues fuel hlocal hlive⟩

/-- A function that returns `a` finds none where there is no global `a`, also if it is
called from a scope that binds one, and whether the clock ticks or stands still. -/
theorem call_isolated_local :
    ∃ after, CallEnds (some maxCallDepth)
      ⟨⟨.identifier, "f", none, 1⟩, [], [.ret ⟨.keyword .return, "return", none, 1⟩
        (some (.variable ⟨.identifier, "a", none, 1⟩))], .global, 1⟩ []
      (((Machine.start (.ticking 0) .unlimited).enter .global [⟨.identifier, "a", none, 1⟩]
        [.bool true]).under ⟨fun _ => 0, 0⟩)
      (.error (Meaning.blame ⟨.identifier, "a", none, 1⟩ (.undefinedVariable "a"))) after := by
  have hstart := Machine.standing_start (.ticking 0) .unlimited
  have hentered :
      ((Machine.start (.ticking 0) .unlimited).enter .global [⟨.identifier, "a", none, 1⟩]
      [.bool true]).Standing := by
    apply hstart.enter (Machine.start (.ticking 0) .unlimited).environment.global_live
    intro value hvalue
    rw [List.mem_singleton.mp hvalue]
    trivial
  obtain ⟨hends, _, _⟩ := call_isolated (some maxCallDepth) hstart hentered
    ⟨rfl, rfl, rfl, rfl⟩ ⟨⟨.identifier, "f", none, 1⟩, [],
      [.ret ⟨.keyword .return, "return", none, 1⟩ (some (.variable ⟨.identifier, "a", none, 1⟩))],
      .global, 1⟩ rfl [] (by simp) ⟨fun _ => 0, 0⟩
  exact (hends _).mp ⟨_, 4, rfl⟩

end Eval

end LoxLang
