/-
# Evaluation restores the scopes

Scopes are opened and released in strict order, the current scope is put back, and the
count of calls goes down again, however an evaluation ends. This needs no assumption on
the machine at all.

A machine is well formed if its current scope is live, all scopes but the global one are
enclosed by a scope below them, and all functions that are stored close over the global
scope. This too is kept.
-/

import LoxLang.Proofs.Environment.Scopes
import LoxLang.Proofs.Evaluation.Discipline

namespace LoxLang

namespace Machine

/-! ## Restored machines -/

/-- The second machine has the current scope, the calls in progress and the live scopes of
the first, and these enclose each other as they did. What they bind may differ. -/
structure Restored (before after : Machine) : Prop where
  current : after.current = before.current
  callDepth : after.callDepth = before.callDepth
  depth : after.environment.depth = before.environment.depth
  enclosing (scope : ScopeId) :
    after.environment.enclosing? scope = before.environment.enclosing? scope

theorem Restored.refl (machine : Machine) : machine.Restored machine :=
  ⟨rfl, rfl, rfl, fun _ => rfl⟩

theorem Restored.trans {first second third : Machine} (h : first.Restored second)
    (hlater : second.Restored third) : first.Restored third := by
  constructor
  · rw [hlater.current, h.current]
  · rw [hlater.callDepth, h.callDepth]
  · rw [hlater.depth, h.depth]
  · intro scope
    rw [hlater.enclosing, h.enclosing]

variable {machine inner : Machine}

theorem restored_define (scope : ScopeId) (name : String) (value : Value) :
    machine.Restored { machine with environment := machine.environment.define scope name value } := by
  constructor
  · rfl
  · rfl
  · exact Environment.depth_define _ scope name value
  · intro other
    exact Environment.enclosing?_define scope name value other

variable {enclosing : ScopeId} {names : List Token} {values : List Value}

theorem depth_enter :
    (machine.enter enclosing names values).environment.depth = machine.environment.depth + 1 := by
  rw [enter]
  simp

theorem enclosing?_enter (scope : ScopeId) :
    (machine.enter enclosing names values).environment.enclosing? scope =
      if scope = machine.environment.next then some (some enclosing)
      else machine.environment.enclosing? scope := by
  rw [enter]
  simp [Environment.enclosing?_push]

theorem Restored.leave (h : (machine.enter enclosing names values).Restored inner) :
    machine.Restored (machine.leave inner) := by
  have hdepth : inner.environment.depth = machine.environment.depth + 1 := by
    rw [h.depth, depth_enter]
  have hglobal : 0 < machine.environment.depth := machine.environment.global_live
  constructor
  · rfl
  · exact h.callDepth
  · show (inner.environment.pop machine.environment.next).depth = machine.environment.depth
    rw [Environment.depth_pop, hdepth]
    show min (max machine.environment.depth 1) (machine.environment.depth + 1) = _
    omega
  · intro scope
    show (inner.environment.pop machine.environment.next).enclosing? scope = _
    rw [Environment.enclosing?_pop, h.enclosing, enclosing?_enter]
    show (if scope.index < max machine.environment.depth 1 then _ else none) = _
    split
    next hlive =>
      rw [if_neg]
      rintro rfl
      have : machine.environment.next.index = machine.environment.depth := rfl
      omega
    next hdead =>
      symm
      rw [Environment.enclosing?_eq_none_iff]
      omega

theorem Restored.ascend
    (h : Restored { machine with callDepth := machine.callDepth + 1 } inner) :
    machine.Restored { inner with callDepth := inner.callDepth - 1 } := by
  constructor
  · exact h.current
  · show inner.callDepth - 1 = machine.callDepth
    rw [h.callDepth]
    rfl
  · exact h.depth
  · exact h.enclosing

/-- Evaluation restores every machine. -/
def restoration : Discipline where
  Holds _ := True
  Fit _ := True
  Leads _ := Restored
  refl _ := .refl
  trans := .trans
  executing h := h
  plain _ := trivial
  found _ _ := trivial
  overwritten _ _ _ := ⟨trivial, restored_define _ _ _⟩
  declared _ _ _ := ⟨trivial, restored_define _ _ _⟩
  made _ _ _ _ := ⟨trivial, trivial, rfl, rfl, rfl, fun _ => rfl⟩
  observed _ _ _ := ⟨trivial, rfl, rfl, rfl, fun _ => rfl⟩
  entered _ _ _ := trivial
  left _ _ _ _ h := ⟨trivial, h.leave⟩
  descended _ := trivial
  ascended _ _ h := ⟨trivial, h.ascend⟩

end Machine

/-! ## Well-formed machines -/

/-- The function sees the global scope and none but it. -/
def Callable.Closed : Callable → Prop
  | .declared function => function.closure = .global
  | .native _ _ => True

/-- The value, if it is a function, sees the global scope and none but it. -/
def Value.Closed : Value → Prop
  | .callable function => function.Closed
  | _ => True

theorem Value.closed_of_callable? {value : Value} (h : value.callable? = none) : value.Closed := by
  cases value with
  | callable function => cases h
  | _ => trivial

namespace Machine

/-- What evaluation relies on: the current scope is live, scopes are enclosed by scopes
below them, and functions are closed. The global scope may be an exception to the second. -/
structure WellFormed (machine : Machine) : Prop where
  current_live : machine.current.index < machine.environment.depth
  enclosing_lt {scope enclosing : ScopeId} : scope ≠ .global →
    machine.environment.enclosing? scope = some (some enclosing) → enclosing.index < scope.index
  closed {value : Value} : machine.environment.Stores value → value.Closed

variable {machine inner : Machine} {enclosing : ScopeId} {names : List Token} {values : List Value}

/-- Well-formedness depends on nothing that is not restored, except for the values. -/
theorem WellFormed.restored (h : machine.WellFormed) {after : Machine}
    (hrestored : machine.Restored after)
    (hclosed : ∀ value, after.environment.Stores value → value.Closed) : after.WellFormed := by
  constructor
  · rw [hrestored.current, hrestored.depth]
    exact h.current_live
  · intro scope enclosing hlocal henclosing
    rw [hrestored.enclosing] at henclosing
    exact h.enclosing_lt hlocal henclosing
  · intro value hstores
    exact hclosed value hstores

theorem WellFormed.define (h : machine.WellFormed) {value : Value} (hvalue : value.Closed)
    (scope : ScopeId) (name : String) :
    WellFormed { machine with environment := machine.environment.define scope name value } := by
  apply h.restored (restored_define scope name value)
  intro stored hstored
  rcases hstored.of_define with hbefore | rfl
  · exact h.closed hbefore
  · exact hvalue

/-- A scope can be opened in any that is live. -/
theorem WellFormed.enter (h : machine.WellFormed)
    (henclosing : enclosing.index < machine.environment.depth)
    (hvalues : ∀ value ∈ values, value.Closed) :
    (machine.enter enclosing names values).WellFormed := by
  constructor
  · rw [depth_enter]
    exact Nat.lt_succ_self _
  · intro scope outer hlocal houter
    rw [enclosing?_enter] at houter
    split at houter
    next heq =>
      cases houter
      rw [heq]
      exact henclosing
    next => exact h.enclosing_lt hlocal houter
  · intro value hstored
    rcases hstored.of_defineAll with hbefore | hmem
    · exact h.closed hbefore.of_push
    · exact hvalues value hmem

theorem WellFormed.leave (h : machine.WellFormed) (hinner : inner.WellFormed)
    (hrestored : (machine.enter enclosing names values).Restored inner) :
    (machine.leave inner).WellFormed := by
  apply h.restored hrestored.leave
  intro value hstored
  exact hinner.closed hstored.of_pop

theorem WellFormed.of_opens (h : machine.WellFormed) (hopens : Opens Value.Closed machine enclosing) :
    enclosing.index < machine.environment.depth := by
  rcases hopens with rfl | ⟨function, hfunction, rfl⟩
  · exact h.current_live
  · have hclosure : function.closure = .global := hfunction
    rw [hclosure]
    exact machine.environment.global_live

/-- Evaluation restores well-formed machines and keeps them well formed. -/
def wellFormedness : Discipline where
  Holds := WellFormed
  Fit := Value.Closed
  Leads _ := Restored
  refl _ := .refl
  trans := .trans
  executing h := h
  plain := Value.closed_of_callable?
  found h hfound := h.closed (Environment.stores_of_searchWithin hfound)
  overwritten h _ hvalue := ⟨h.define hvalue _ _, restored_define _ _ _⟩
  declared _ h hvalue := ⟨h.define hvalue _ _, restored_define _ _ _⟩
  made _ _ _ h := ⟨rfl, ⟨h.current_live, h.enclosing_lt, h.closed⟩, rfl, rfl, rfl, fun _ => rfl⟩
  observed _ _ h := ⟨⟨h.current_live, h.enclosing_lt, h.closed⟩, rfl, rfl, rfl, fun _ => rfl⟩
  entered h hopens hvalues := h.enter (h.of_opens hopens) hvalues
  left h _ _ hinner hleads := ⟨h.leave hinner hleads, hleads.leave⟩
  descended h := ⟨h.current_live, h.enclosing_lt, h.closed⟩
  ascended _ hinner hleads :=
    ⟨⟨hinner.current_live, hinner.enclosing_lt, hinner.closed⟩, hleads.ascend⟩

/-! ## The machine that has run nothing -/

theorem start_environment (clock : Clock) (output : Sink) : (start clock output).environment =
    (Environment.empty.define .global Builtin.clock.name (.callable (.native .clock 0))) :=
  rfl

/-- At first nothing is stored but the clock. -/
theorem eq_clock_of_stores_start {clock : Clock} {output : Sink} {value : Value}
    (h : (start clock output).environment.Stores value) : value = .callable (.native .clock 0) := by
  rw [start_environment] at h
  rcases h.of_define with ⟨index, held, name, hheld, hmem⟩ | hclock
  · cases index with
    | zero =>
        cases hheld
        cases hmem
    | succ index => cases hheld
  · exact hclock

end Machine

end LoxLang
