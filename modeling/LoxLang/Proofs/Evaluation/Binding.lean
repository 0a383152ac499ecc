/-
# Which names are bound

Evaluating an expression binds no name that was not bound: an assignment gives a new value
to a name that is there, and what a call declares is gone with its scope. A statement binds
names in the current scope only. And no name that is bound is ever lost, since a scope goes
with all it binds and not before what opened it ends.

So the names that a scope binds are the same before and after, but for those that are added
to the current scope. Of the local scopes that are not in sight, the values are the same too.
-/

import LoxLang.Proofs.Evaluation.Refinement

namespace LoxLang

theorem Bindings.map_fst_bind {V : Type} {name : String} {value held : V} {bindings : Bindings V}
    (h : find? name bindings = some held) :
    (bind name value bindings).map Prod.fst = bindings.map Prod.fst := by
  induction bindings with
  | nil => cases h
  | cons first rest ih =>
      obtain ⟨other, bound⟩ := first
      rw [find?] at h
      rw [bind]
      split at h
      next heq => rw [if_pos heq, List.map_cons, List.map_cons]
      next hne => rw [if_neg hne, List.map_cons, List.map_cons, ih h]

theorem Bindings.map_fst_subset_bind {V : Type} (name : String) (value : V)
    (bindings : Bindings V) :
    bindings.map Prod.fst ⊆ (bind name value bindings).map Prod.fst := by
  induction bindings with
  | nil => exact List.nil_subset _
  | cons first rest ih =>
      obtain ⟨other, bound⟩ := first
      rw [bind]
      split
      · exact fun _ => id
      · exact List.cons_subset_cons other ih

namespace Environment

variable {V : Type} {env : Environment V} {scope bound : ScopeId} {name : String} {value held : V}

/-- The names that a scope binds. -/
def boundAt (env : Environment V) (scope : ScopeId) : List String :=
  (env.bindingsAt scope).map Prod.fst

theorem find?_of_searchWithin {visits : Nat}
    (h : env.searchWithin name visits scope = .found bound held) :
    bound.index < env.depth ∧ (env.bindingsAt bound).find? name = some held := by
  induction visits generalizing scope with
  | zero => cases h
  | succ visits ih =>
      rw [searchWithin] at h
      split at h
      next => cases h
      next here hhere =>
        split at h
        next found hfound =>
          cases h
          rw [bindingsAt, hhere]
          exact ⟨(Array.getElem?_eq_some_iff.mp hhere).1, hfound⟩
        next =>
          split at h
          next => cases h
          next => exact ih h

/-- Giving a new value to a name that is found binds no other. -/
theorem boundAt_define_of_found {start : ScopeId} (h : env.search start name = .found bound held)
    (value : V) (scope : ScopeId) :
    (env.define bound name value).boundAt scope = env.boundAt scope := by
  obtain ⟨hlive, hfind⟩ := find?_of_searchWithin h
  rw [boundAt, boundAt, bindingsAt_define hlive]
  split
  next heq =>
    rw [← heq]
    exact Bindings.map_fst_bind hfind
  next => rfl

/-- Binding a name takes no other from a scope, be it live or not. -/
theorem boundAt_subset_define (env : Environment V) (bound : ScopeId) (name : String) (value : V)
    (scope : ScopeId) : env.boundAt scope ⊆ (env.define bound name value).boundAt scope := by
  by_cases hlive : bound.index < env.depth
  · rw [boundAt, boundAt, bindingsAt_define hlive]
    split
    · exact Bindings.map_fst_subset_bind _ _ _
    · exact fun _ => id
  · have hsame : (env.define bound name value).bindingsAt scope = env.bindingsAt scope := by
      rw [bindingsAt, bindingsAt, getElem?_define]
      split
      next heq =>
        rw [← heq, env.getElem?_eq_none_iff.mpr (Nat.le_of_not_lt hlive)]
        rfl
      next => rfl
    rw [boundAt, boundAt, hsame]
    exact fun _ => id

theorem boundAt_of_dead (hdead : env.depth ≤ scope.index) : env.boundAt scope = [] := by
  rw [boundAt, bindingsAt_of_dead hdead]
  rfl

end Environment

namespace Machine

variable {machine inner : Machine} {enclosing : ScopeId} {names : List Token} {values : List Value}

/-- The second machine restores the first, and its scopes bind the same names, except for
the current one if declarations are executed. -/
structure Named (phase : Phase) (before after : Machine) : Prop extends Restored before after where
  boundAt {scope : ScopeId} : phase = .evaluating ∨ scope ≠ before.current →
    after.environment.boundAt scope = before.environment.boundAt scope

theorem boundAt_enter {scope : ScopeId} (hlive : scope.index < machine.environment.depth) :
    (machine.enter enclosing names values).environment.boundAt scope =
      machine.environment.boundAt scope := by
  rw [Environment.boundAt, bindingsAt_enter, if_neg (Environment.ne_next hlive).symm, Environment.boundAt]

theorem boundAt_leave {scope : ScopeId} (hlive : scope.index < machine.environment.depth) :
    (machine.leave inner).environment.boundAt scope = inner.environment.boundAt scope := by
  rw [Environment.boundAt, bindingsAt_leave hlive, Environment.boundAt]

theorem Named.leave
    (h : Named .executing (machine.enter enclosing names values) inner) :
    Named .evaluating machine (machine.leave inner) := by
  refine ⟨h.toRestored.leave, fun {scope} _ => ?_⟩
  by_cases hlive : scope.index < machine.environment.depth
  · have hother : scope ≠ (machine.enter enclosing names values).current := Environment.ne_next hlive
    rw [boundAt_leave hlive, h.boundAt (.inr hother), boundAt_enter hlive]
  · have hdead : machine.environment.depth ≤ scope.index := Nat.le_of_not_lt hlive
    rw [Environment.boundAt_of_dead hdead, Environment.boundAt_of_dead]
    rw [h.toRestored.leave.depth]
    exact hdead

theorem Named.of_restored {phase : Phase} {after : Machine} (h : machine.Restored after)
    (hsame : after.environment = machine.environment) : Named phase machine after := by
  refine ⟨h, fun _ => ?_⟩
  rw [hsame]

/-- Evaluation binds no names but those it declares in the current scope. -/
def naming : Discipline where
  Holds machine := machine.current.index < machine.environment.depth
  Fit _ := True
  Leads := Named
  refl _ machine := .of_restored (.refl machine) rfl
  trans h hlater := by
    refine ⟨h.toRestored.trans hlater.toRestored, fun hscope => ?_⟩
    rw [hlater.boundAt (hscope.imp_right fun hne => h.current ▸ hne), h.boundAt hscope]
  executing h := ⟨h.toRestored, fun _ => h.boundAt (.inl rfl)⟩
  plain _ := trivial
  found _ _ := trivial
  overwritten {machine} _ _ _ value hlive hfound _ := by
    refine ⟨?_, restored_define _ _ _, fun _ => ?_⟩
    · show machine.current.index < (machine.environment.define _ _ _).depth
      rw [Environment.depth_define]
      exact hlive
    · exact Environment.boundAt_define_of_found hfound value _
  declared {machine} value name hlive _ := by
    refine ⟨?_, restored_define _ _ _, fun {scope} hscope => ?_⟩
    · show machine.current.index < (machine.environment.define _ _ _).depth
      rw [Environment.depth_define]
      exact hlive
    · have hother : machine.current ≠ scope := (hscope.resolve_left nofun).symm
      show (machine.environment.define _ _ _).boundAt scope = _
      rw [Environment.boundAt, Environment.bindingsAt_define hlive, if_neg hother]
      rfl
  made _ _ _ hlive := ⟨trivial, hlive, .of_restored ⟨rfl, rfl, rfl, fun _ => rfl⟩ rfl⟩
  observed _ _ hlive := ⟨hlive, .of_restored ⟨rfl, rfl, rfl, fun _ => rfl⟩ rfl⟩
  entered {machine enclosing names values} hlive _ _ := by
    rw [depth_enter]
    exact Nat.lt_succ_self _
  left {machine inner _ _ _} hlive _ _ _ h := by
    have hleft := h.leave
    refine ⟨?_, hleft⟩
    rw [hleft.depth]
    exact hlive
  descended hlive := hlive
  ascended _ hinner h := ⟨hinner, h.toRestored.ascend, h.boundAt⟩

/-! ## No name is lost -/

/-- The second machine restores the first, and its scopes bind at least the names they did. -/
structure Retained (before after : Machine) : Prop extends Restored before after where
  boundAt (scope : ScopeId) : before.environment.boundAt scope ⊆ after.environment.boundAt scope

theorem Retained.of_restored {after : Machine} (h : machine.Restored after)
    (hsame : after.environment = machine.environment) : machine.Retained after := by
  refine ⟨h, fun scope => ?_⟩
  rw [hsame]
  exact fun _ => id

theorem retained_define (scope : ScopeId) (name : String) (value : Value) :
    machine.Retained { machine with environment := machine.environment.define scope name value } :=
  ⟨restored_define scope name value, Environment.boundAt_subset_define _ scope name value⟩

theorem Retained.leave (h : (machine.enter enclosing names values).Retained inner) :
    machine.Retained (machine.leave inner) := by
  refine ⟨h.toRestored.leave, fun scope => ?_⟩
  by_cases hlive : scope.index < machine.environment.depth
  · rw [boundAt_leave hlive, ← boundAt_enter hlive]
    exact h.boundAt scope
  · rw [Environment.boundAt_of_dead (Nat.le_of_not_lt hlive)]
    exact List.nil_subset _

/-- Evaluation takes no name from a scope. -/
def retention : Discipline where
  Holds _ := True
  Fit _ := True
  Leads _ := Retained
  refl _ machine := .of_restored (.refl machine) rfl
  trans h hlater :=
    ⟨h.toRestored.trans hlater.toRestored,
      fun scope => List.Subset.trans (h.boundAt scope) (hlater.boundAt scope)⟩
  executing h := h
  plain _ := trivial
  found _ _ := trivial
  overwritten _ _ _ := ⟨trivial, retained_define _ _ _⟩
  declared _ _ _ := ⟨trivial, retained_define _ _ _⟩
  made _ _ _ _ := ⟨trivial, trivial, .of_restored ⟨rfl, rfl, rfl, fun _ => rfl⟩ rfl⟩
  observed _ _ _ := ⟨trivial, .of_restored ⟨rfl, rfl, rfl, fun _ => rfl⟩ rfl⟩
  entered _ _ _ := trivial
  left _ _ _ _ h := ⟨trivial, h.leave⟩
  descended _ := trivial
  ascended _ _ h := ⟨trivial, h.toRestored.ascend, h.boundAt⟩

/-! ## The names of all scopes -/

/-- However the evaluation of an expression ends, all scopes that were live are, and bind
just the names they did. So values may be new, but bindings are neither made nor removed.
However the execution of a statement ends, the same holds of all scopes but the current one,
which binds at least the names it did; and the local scopes that are not in sight bind their
names to the values that they were bound to. -/
theorem evaluation_keeps_names (limit : Option Nat) (fuel : Nat) (machine : Machine)
    (h : machine.Standing) :
    (∀ node, machine.Restored (Eval.expression limit fuel node machine).2 ∧
      ∀ scope, (Eval.expression limit fuel node machine).2.environment.boundAt scope =
        machine.environment.boundAt scope) ∧
    (∀ node, machine.Restored (Eval.statement limit fuel node machine).2 ∧
      (∀ scope ≠ machine.current,
        (Eval.statement limit fuel node machine).2.environment.boundAt scope =
          machine.environment.boundAt scope) ∧
      machine.environment.boundAt machine.current ⊆
        (Eval.statement limit fuel node machine).2.environment.boundAt machine.current ∧
      ∀ scope ≠ .global, scope ∉ machine.environment.outward machine.current →
        (Eval.statement limit fuel node machine).2.environment.bindingsAt scope =
          machine.environment.bindingsAt scope) := by
  have hlive := h.wellFormed.current_live
  refine ⟨fun node => ?evaluated, fun node => ?executed⟩
  case evaluated =>
    have hnamed := ((naming.kept limit fuel).expression node machine hlive).2.1
    exact ⟨hnamed.toRestored, fun scope => hnamed.boundAt (.inl rfl)⟩
  case executed =>
    have hnamed := ((naming.kept limit fuel).statement node machine hlive).2.1
    have hretained := ((retention.kept limit fuel).statement node machine trivial).2.1
    have hframed := ((framing.kept limit fuel).statement node machine h).2.1
    exact ⟨hnamed.toRestored, fun scope hother => hnamed.boundAt (.inr hother),
      hretained.boundAt machine.current, fun scope hlocal hunseen => hframed.unseen hlocal hunseen⟩

/-- A declaration in a local scope that binds `a` leaves it bound there, and adds nothing to
the global names. -/
theorem evaluation_keeps_names_local :
    "a" ∈ (Eval.statement (some maxCallDepth) 2 (.var ⟨.identifier, "b", none, 1⟩ none)
      ((start (.ticking 0) .unlimited).enter .global [⟨.identifier, "a", none, 1⟩]
        [.bool true])).2.environment.boundAt ⟨1⟩ ∧
    (Eval.statement (some maxCallDepth) 2 (.var ⟨.identifier, "b", none, 1⟩ none)
      ((start (.ticking 0) .unlimited).enter .global [⟨.identifier, "a", none, 1⟩]
        [.bool true])).2.environment.boundAt .global = ["clock"] := by
  have hentered : ((start (.ticking 0) .unlimited).enter .global [⟨.identifier, "a", none, 1⟩]
      [.bool true]).Standing := by
    apply (standing_start (.ticking 0) .unlimited).enter
      (start (.ticking 0) .unlimited).environment.global_live
    intro value hvalue
    rw [List.mem_singleton.mp hvalue]
    trivial
  obtain ⟨_, hothers, hcurrent, _⟩ := (evaluation_keeps_names (some maxCallDepth) 2 _ hentered).2
    (.var ⟨.identifier, "b", none, 1⟩ none)
  constructor
  · exact hcurrent (show "a" ∈ ["a"] from List.mem_cons_self)
  · exact hothers .global (by decide)

end Machine

end LoxLang
