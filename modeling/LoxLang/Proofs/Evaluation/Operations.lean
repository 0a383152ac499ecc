/-
# Operations on scopes

A machine opens and releases scopes, and declares, assigns and looks up names in them, each
time in one scope that it names. Here these operations are made in any order, in whatever
scopes are live by then.

After any number of them the scopes are a stack of maps, each chained to those around it. A
look-up gives the value in the first map of the chain that has the name, and what an operation
changes is told by what look-ups from all scopes give after it. All of this rests on one
invariant: every local scope is enclosed by one below it.
-/

import LoxLang.Evaluation.Machine
import LoxLang.Proofs.Environment.Chains

namespace LoxLang

/-- What can be done with the scopes of a machine, in one that is named. -/
inductive Operation
  | /-- Open a scope inside of it. -/
    push
  | /-- Release it, and all that were opened after it. -/
    pop
  | define (name : Token) (value : Value)
  | assign (name : Token) (value : Value)
  | get (name : Token)

/-- How looking up a name ends that is resolved so. -/
def Exit.ofResolved (name : Token) : Option (ScopeId × Value) → Exit Fault Value
  | some (_, held) => .value held
  | none => .fault (.program ⟨.undefinedVariable name.lexeme, name.line⟩)

namespace Machine

/-- The machine with the given scope as the current one. -/
def within (machine : Machine) (scope : ScopeId) : Machine :=
  { machine with current := scope }

/-- How looking up a name from a scope ends. -/
def got (machine : Machine) (scope : ScopeId) (name : Token) : Exit Fault Value :=
  (Action.lookUp name (machine.within scope)).1

/-- How giving a new value to a name from a scope ends. -/
def assigned (machine : Machine) (scope : ScopeId) (name : Token) (value : Value) :
    Exit Fault Unit :=
  (Action.overwrite name value (machine.within scope)).1

/-- The machine that an operation in a scope leaves. -/
def operate (machine : Machine) (scope : ScopeId) : Operation → Machine
  | .push => { machine with environment := machine.environment.push scope }
  | .pop => { machine with environment := machine.environment.pop scope }
  | .define name value => (Action.declare name value (machine.within scope)).2
  | .assign name value => (Action.overwrite name value (machine.within scope)).2
  | .get name => (Action.lookUp name (machine.within scope)).2

/-- The machine is what operations lead to, starting with no more than an empty global scope,
each in a scope that is live by then. -/
inductive Operated : Machine → Prop
  | start {machine : Machine} : machine.environment = .empty → Operated machine
  | operate {machine : Machine} {scope : ScopeId} (operation : Operation) : Operated machine →
      scope.index < machine.environment.depth → Operated (machine.operate scope operation)

/-- The scopes of the machine are a stack of maps, each chained to those around it. -/
structure Chained (machine : Machine) : Prop where
  /-- The list of the global scope is its own map. -/
  global : machine.environment.chain .global = [.global]
  /-- The list of any other is its own map and the list of the scope around it. -/
  outwards {scope : ScopeId} : scope ≠ .global → scope.index < machine.environment.depth →
    ∃ outer, machine.environment.enclosing? scope = some (some outer) ∧
      outer.index < machine.environment.depth ∧
      machine.environment.chain scope = scope :: machine.environment.chain outer
  /-- A look-up gives what the first map of the list has that has the name, and changes
  nothing. -/
  get {scope : ScopeId} (name : Token) : scope.index < machine.environment.depth →
    machine.got scope name = .ofResolved name (machine.environment.resolve scope name.lexeme) ∧
    (machine.operate scope (.get name)).environment = machine.environment
  /-- A declaration changes the map of the scope, and no more of it than the one name. -/
  define {scope : ScopeId} (name : Token) (value : Value) :
    scope.index < machine.environment.depth →
      machine.environment.Rebound (machine.operate scope (.define name value)).environment scope
        name.lexeme value
  /-- An assignment succeeds exactly if a look-up does, and fails as that does. -/
  assign_ends {scope : ScopeId} (name : Token) (value : Value) :
    scope.index < machine.environment.depth →
      (machine.assigned scope name value = .value () ↔
        ∃ held, machine.got scope name = .value held) ∧
      ∀ cause, machine.assigned scope name value = .fault cause ↔
        machine.got scope name = .fault cause
  /-- An assignment that succeeds changes the binding that a look-up finds, and no other. A
  look-up of any name from any scope gives the new value if it comes to that binding, and
  what it gave otherwise. -/
  assign {scope bound : ScopeId} {held : Value} (name : Token) (value : Value) :
    scope.index < machine.environment.depth →
      machine.environment.resolve scope name.lexeme = some (bound, held) →
        machine.environment.Rebound (machine.operate scope (.assign name value)).environment bound
          name.lexeme value ∧
        ∀ (other : ScopeId) (key : Token), other.index < machine.environment.depth →
          (machine.operate scope (.assign name value)).got other key =
            if (machine.environment.resolve other key.lexeme).map Prod.fst = some bound ∧
              key.lexeme = name.lexeme then .value value
            else machine.got other key
  /-- An assignment that fails changes nothing. -/
  unassigned {scope : ScopeId} (name : Token) (value : Value) {cause : Fault} :
    scope.index < machine.environment.depth → machine.assigned scope name value = .fault cause →
      (machine.operate scope (.assign name value)).environment = machine.environment
  /-- Releasing a scope leaves those below it, and the global one in any case. Look-ups from
  these give what they gave. -/
  pop {scope : ScopeId} : scope.index < machine.environment.depth →
    (machine.operate scope .pop).environment.depth = max scope.index 1 ∧
    ∀ (other : ScopeId) (key : Token),
      other.index < (machine.operate scope .pop).environment.depth →
        (machine.operate scope .pop).got other key = machine.got other key
  /-- Opening a scope adds an empty map. Look-ups from there give what they give from the scope
  around it, and those from all others what they gave. -/
  push {scope : ScopeId} : scope.index < machine.environment.depth →
    (machine.operate scope .push).environment.depth = machine.environment.depth + 1 ∧
    (machine.operate scope .push).environment.enclosing? machine.environment.next =
      some (some scope) ∧
    (machine.operate scope .push).environment.bindingsAt machine.environment.next = [] ∧
    (∀ key, (machine.operate scope .push).got machine.environment.next key =
      machine.got scope key) ∧
    ∀ (other : ScopeId) (key : Token), other.index < machine.environment.depth →
      (machine.operate scope .push).got other key = machine.got other key

variable {machine after : Machine} {scope bound : ScopeId} {name : Token} {value held : Value}

/-! ## How look-ups and assignments end -/

/-- In a scope, a name is searched as the list of the scope resolves it. -/
theorem search_within (h : machine.environment.Rooted)
    (hlive : scope.index < machine.environment.depth) (name : String) :
    (machine.within scope).environment.search (machine.within scope).current name =
      .ofResolved (machine.environment.resolve scope name) :=
  Environment.search_eq_resolve h hlive name

theorem lookUp_within (h : machine.environment.Rooted)
    (hlive : scope.index < machine.environment.depth) (name : Token) :
    Action.lookUp name (machine.within scope) =
      (.ofResolved name (machine.environment.resolve scope name.lexeme), machine.within scope) := by
  rw [Action.lookUp, search_within h hlive]
  cases machine.environment.resolve scope name.lexeme with
  | none => rfl
  | some found => rfl

theorem overwrite_within_of_some (h : machine.environment.Rooted)
    (hlive : scope.index < machine.environment.depth)
    (hresolve : machine.environment.resolve scope name.lexeme = some (bound, held))
    (value : Value) :
    Action.overwrite name value (machine.within scope) =
      (.value (), { machine.within scope with
        environment := machine.environment.define bound name.lexeme value }) := by
  rw [Action.overwrite, search_within h hlive, hresolve]
  rfl

theorem overwrite_within_of_none (h : machine.environment.Rooted)
    (hlive : scope.index < machine.environment.depth)
    (hresolve : machine.environment.resolve scope name.lexeme = none) (value : Value) :
    Action.overwrite name value (machine.within scope) =
      (.fault (.program ⟨.undefinedVariable name.lexeme, name.line⟩), machine.within scope) := by
  rw [Action.overwrite, search_within h hlive, hresolve]
  rfl

theorem got_eq (h : machine.environment.Rooted) (hlive : scope.index < machine.environment.depth)
    (name : Token) :
    machine.got scope name = .ofResolved name (machine.environment.resolve scope name.lexeme) :=
  congrArg Prod.fst (lookUp_within h hlive name)

/-- Look-ups of names that are resolved alike end alike. -/
theorem got_congr (h : machine.environment.Rooted) (hafter : after.environment.Rooted)
    {other : ScopeId} (hlive : scope.index < machine.environment.depth)
    (hother : other.index < after.environment.depth)
    (hresolve : after.environment.resolve other name.lexeme =
      machine.environment.resolve scope name.lexeme) :
    after.got other name = machine.got scope name := by
  rw [got_eq hafter hother, got_eq h hlive, hresolve]

/-! ## What operations leave -/

theorem environment_assign_of_some (h : machine.environment.Rooted)
    (hlive : scope.index < machine.environment.depth)
    (hresolve : machine.environment.resolve scope name.lexeme = some (bound, held)) :
    (machine.operate scope (.assign name value)).environment =
      machine.environment.define bound name.lexeme value := by
  rw [operate, overwrite_within_of_some h hlive hresolve]

theorem environment_assign_of_none (h : machine.environment.Rooted)
    (hlive : scope.index < machine.environment.depth)
    (hresolve : machine.environment.resolve scope name.lexeme = none) :
    (machine.operate scope (.assign name value)).environment = machine.environment := by
  rw [operate, overwrite_within_of_none h hlive hresolve]
  rfl

/-- Any operation in a live scope keeps the scopes leading outwards to the global one. -/
theorem rooted_operate (h : machine.environment.Rooted)
    (hlive : scope.index < machine.environment.depth) (operation : Operation) :
    (machine.operate scope operation).environment.Rooted := by
  cases operation with
  | push => exact h.push hlive
  | pop => exact h.pop scope
  | define name value => exact h.define scope name.lexeme value
  | assign name value =>
      cases hresolve : machine.environment.resolve scope name.lexeme with
      | none =>
          rw [environment_assign_of_none h hlive hresolve]
          exact h
      | some found =>
          rw [environment_assign_of_some h hlive hresolve]
          exact h.define found.1 name.lexeme value
  | get name =>
      rw [operate, lookUp_within h hlive]
      exact h

/-- And so do any number of them. -/
theorem Operated.rooted (h : machine.Operated) : machine.environment.Rooted := by
  induction h with
  | start hempty =>
      rw [hempty]
      exact Environment.rooted_empty
  | operate operation _ hlive ih => exact rooted_operate ih hlive operation

/-- After an assignment a look-up gives the new value if it comes to the binding that was
changed, and what it gave before if it does not. -/
theorem got_assign (h : machine.environment.Rooted)
    (hlive : scope.index < machine.environment.depth)
    (hresolve : machine.environment.resolve scope name.lexeme = some (bound, held))
    {other : ScopeId} (hother : other.index < machine.environment.depth) (key : Token) :
    (machine.operate scope (.assign name value)).got other key =
      if (machine.environment.resolve other key.lexeme).map Prod.fst = some bound ∧
        key.lexeme = name.lexeme then .value value
      else machine.got other key := by
  have hfind := Environment.find?_of_resolve hresolve
  have hrebound := Environment.rebound_define (Environment.live_of_find? hfind) name.lexeme value
  have hafter := rooted_operate h hlive (.assign name value)
  have hdepth : (machine.operate scope (.assign name value)).environment.depth =
      machine.environment.depth := by
    rw [environment_assign_of_some h hlive hresolve, Environment.depth_define]
  rw [got_eq hafter (hdepth ▸ hother), environment_assign_of_some h hlive hresolve,
    hrebound.resolve hfind, got_eq h hother]
  cases machine.environment.resolve other key.lexeme with
  | none => rfl
  | some found =>
      obtain ⟨seen, bound'⟩ := found
      by_cases hsame : seen = bound ∧ key.lexeme = name.lexeme
      · simp [hsame, Exit.ofResolved]
      · simp [hsame, Exit.ofResolved]

/-- Whatever operations were made, each in a scope that was live by then, the scopes are a
stack of maps that are chained outwards, and look-ups, declarations, assignments, releasing
and opening do to them just what they do to such a stack. -/
theorem operations_chained (h : machine.Operated) : machine.Chained where
  global := Environment.chain_global
  outwards hlocal hlive := by
    obtain ⟨outer, henclosing, hlower, hchain⟩ := h.rooted.chain_local hlocal hlive
    exact ⟨outer, henclosing, Nat.lt_trans hlower hlive, hchain⟩
  get name hlive := by
    refine ⟨got_eq h.rooted hlive name, ?_⟩
    rw [operate, lookUp_within h.rooted hlive]
    rfl
  define name value hlive := Environment.rebound_define hlive name.lexeme value
  assign_ends {scope} name value hlive := by
    rw [got_eq h.rooted hlive, assigned]
    cases hresolve : machine.environment.resolve scope name.lexeme with
    | none =>
        rw [overwrite_within_of_none h.rooted hlive hresolve]
        simp [Exit.ofResolved]
    | some found =>
        rw [overwrite_within_of_some h.rooted hlive hresolve]
        simp [Exit.ofResolved]
  assign {scope bound held} name value hlive hresolve := by
    refine ⟨?_, fun other key hother => got_assign h.rooted hlive hresolve hother key⟩
    rw [environment_assign_of_some h.rooted hlive hresolve]
    have hfind := Environment.find?_of_resolve hresolve
    exact Environment.rebound_define (Environment.live_of_find? hfind) name.lexeme value
  unassigned {scope} name value cause hlive hfault := by
    cases hresolve : machine.environment.resolve scope name.lexeme with
    | none => exact environment_assign_of_none h.rooted hlive hresolve
    | some found =>
        rw [assigned, overwrite_within_of_some h.rooted hlive hresolve] at hfault
        cases hfault
  pop {scope} hlive := by
    have hdepth : (machine.operate scope .pop).environment.depth = max scope.index 1 := by
      have : 0 < machine.environment.depth := machine.environment.global_live
      show (machine.environment.pop scope).depth = _
      rw [Environment.depth_pop]
      omega
    refine ⟨hdepth, fun other key hother => ?_⟩
    have hkept : other.index < max scope.index 1 := hdepth ▸ hother
    have hbefore : other.index < machine.environment.depth := by
      have : 0 < machine.environment.depth := machine.environment.global_live
      omega
    exact got_congr h.rooted (h.rooted.pop scope) hbefore hother
      (Environment.resolve_pop hkept key.lexeme)
  push {scope} hlive := by
    have hdepth : (machine.operate scope .push).environment.depth =
        machine.environment.depth + 1 :=
      Environment.depth_push _ _
    refine ⟨hdepth, ?enclosed, ?empty, fun key => ?inside, fun other key hother => ?outside⟩
    case enclosed =>
      show (machine.environment.push scope).enclosing? machine.environment.next = _
      rw [Environment.enclosing?_push, if_pos rfl]
    case empty =>
      show (machine.environment.push scope).bindingsAt machine.environment.next = _
      rw [Environment.bindingsAt_push, Environment.bindingsAt_next]
    case inside =>
      exact got_congr h.rooted (h.rooted.push hlive) hlive (hdepth ▸ Nat.lt_succ_self _)
        (Environment.resolve_next hlive key.lexeme)
    case outside =>
      exact got_congr h.rooted (h.rooted.push hlive) hother (hdepth ▸ Nat.lt_succ_of_lt hother)
        (Environment.resolve_push hother scope key.lexeme)

/-- A scope that binds `a` again and is released leaves the global `a` as it was. -/
theorem operations_chained_pop :
    ((((({ start (.ticking 0) .unlimited with environment := .empty } : Machine).operate .global
      (.define ⟨.identifier, "a", none, 1⟩ (.bool true))).operate .global .push).operate ⟨1⟩
        (.define ⟨.identifier, "a", none, 1⟩ .nil)).operate ⟨1⟩ .pop).got .global
          ⟨.identifier, "a", none, 1⟩ = .value (.bool true) := by
  have hstart : Operated { start (.ticking 0) .unlimited with environment := .empty } := .start rfl
  have hbound := @Operated.operate _ .global (.define ⟨.identifier, "a", none, 1⟩ (.bool true))
    hstart (by decide)
  have hopened := @Operated.operate _ .global .push hbound (by decide)
  have hshadowed := @Operated.operate _ ⟨1⟩ (.define ⟨.identifier, "a", none, 1⟩ .nil) hopened
    (by decide)
  obtain ⟨_, hsame⟩ := @Chained.pop _ (operations_chained hshadowed) ⟨1⟩ (by decide)
  exact hsame .global ⟨.identifier, "a", none, 1⟩ (by decide)

end Machine

end LoxLang
