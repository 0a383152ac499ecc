/-
# Environments

An environment is a pile of scopes. Each scope binds names of its own and names
the scope around it, and scopes are addressed by their place in the pile, counted
from the bottom. Opening a scope puts it on top; releasing one removes it and all
that lie above it, and its place may be taken again later. The global scope at the
bottom is there from the start and is never released.

An address may outlive its scope. Nothing goes wrong then: what names no scope
binds nothing and ignores declarations, and a search that comes to it ends. Only
an address that is reused while an older scope still names it can lead a search in
a circle; a search that visits more scopes than there are has found one, and says
so.
-/

namespace LoxLang

/-- The place of a scope in an environment. -/
structure ScopeId where
  /-- How many scopes lie below. -/
  index : Nat
  deriving DecidableEq

/-- The scope at the bottom. -/
def ScopeId.global : ScopeId :=
  ⟨0⟩

/-- The names that a scope binds, with their values. -/
abbrev Bindings (V : Type) := List (String × V)

namespace Bindings

variable {V : Type}

/-- Bind a name, in place of its earlier value if it has one. -/
def bind (name : String) (value : V) : Bindings V → Bindings V
  | [] => [(name, value)]
  | (other, held) :: rest =>
    if other = name then (other, value) :: rest else (other, held) :: bind name value rest

/-- The value a name is bound to. -/
def find? (name : String) : Bindings V → Option V
  | [] => none
  | (other, held) :: rest => if other = name then some held else find? name rest

@[simp]
theorem find?_bind_self (name : String) (value : V) (bindings : Bindings V) :
    find? name (bind name value bindings) = some value := by
  induction bindings with
  | nil => simp [bind, find?]
  | cons entry rest ih =>
    obtain ⟨other, held⟩ := entry
    by_cases h : other = name <;> simp [bind, find?, h, ih]

@[simp]
theorem find?_bind_of_ne {name other : String} (h : other ≠ name) (value : V)
    (bindings : Bindings V) :
    find? other (bind name value bindings) = find? other bindings := by
  induction bindings with
  | nil => simp [bind, find?, Ne.symm h]
  | cons entry rest ih =>
    obtain ⟨first, held⟩ := entry
    by_cases hfirst : first = name
    · subst hfirst
      simp [bind, find?, Ne.symm h]
    · simp [bind, find?, hfirst, ih]

end Bindings

/-- A scope: its own bindings, and the scope to search when they lack a name. -/
structure Scope (V : Type) where
  /-- The names bound here. -/
  bindings : Bindings V
  /-- The scope around this one, absent for the global scope. -/
  enclosing : Option ScopeId

/-- The scopes that are live. -/
structure Environment (V : Type) where
  /-- The scopes, the global one first. -/
  scopes : Array (Scope V)
  /-- The global scope is always there. -/
  global_live : 0 < scopes.size

/-- Where the search for a name ends. -/
inductive Search (V : Type)
  | /-- At the nearest scope that binds the name. -/
    found (scope : ScopeId) (value : V)
  | /-- Past the last scope of the chain. -/
    unbound
  | /-- Nowhere: the chain leads back into itself. -/
    endless

namespace Environment

variable {V : Type}

/-- The environment that holds only an empty global scope. -/
def empty : Environment V :=
  ⟨#[⟨[], none⟩], Nat.zero_lt_one⟩

/-- How many scopes are live. -/
def depth (env : Environment V) : Nat :=
  env.scopes.size

/-- Open an empty scope inside the given one. -/
def push (env : Environment V) (enclosing : ScopeId) : Environment V :=
  match env with
  | ⟨scopes, _⟩ => ⟨scopes.push ⟨[], some enclosing⟩, by simp⟩

/-- The address that the next scope opened will have. -/
def next (env : Environment V) : ScopeId :=
  ⟨env.scopes.size⟩

/-- Release a scope and all that were opened after it, except for the global one. -/
def pop (env : Environment V) (scope : ScopeId) : Environment V :=
  match env with
  | ⟨scopes, global_live⟩ =>
    ⟨scopes.shrink (max scope.index 1), by rw [Array.size_shrink]; omega⟩

/-- Bind a name in the given scope itself. -/
def define (env : Environment V) (scope : ScopeId) (name : String) (value : V) : Environment V :=
  match env with
  | ⟨scopes, global_live⟩ =>
    ⟨scopes.modify scope.index fun held => { held with bindings := held.bindings.bind name value },
      by rw [Array.size_modify]; exact global_live⟩

/-- Bind each name in the given scope to the value in the same place, as far as both
lists go. -/
def defineAll (env : Environment V) (scope : ScopeId) : List String → List V → Environment V
  | name :: names, value :: values => (env.define scope name value).defineAll scope names values
  | _, _ => env

@[simp]
theorem depth_push (env : Environment V) (enclosing : ScopeId) :
    (env.push enclosing).depth = env.depth + 1 := by
  simp [push, depth]

@[simp]
theorem depth_pop (env : Environment V) (scope : ScopeId) :
    (env.pop scope).depth = min (max scope.index 1) env.depth := by
  simp [pop, depth]

@[simp]
theorem depth_define (env : Environment V) (scope : ScopeId) (name : String) (value : V) :
    (env.define scope name value).depth = env.depth := by
  simp [define, depth]

@[simp]
theorem depth_defineAll (env : Environment V) (scope : ScopeId) (names : List String)
    (values : List V) : (env.defineAll scope names values).depth = env.depth := by
  induction names generalizing env values with
  | nil => cases values <;> rfl
  | cons name names ih =>
    cases values with
    | nil => rfl
    | cons value values => rw [defineAll, ih, depth_define]

/-- Search for a name from the given scope outwards, visiting at most the given
number of scopes. -/
def searchWithin (env : Environment V) (name : String) : Nat → ScopeId → Search V
  | 0, _ => .endless
  | visits + 1, scope =>
    match env.scopes[scope.index]? with
    | none => .unbound
    | some held =>
      match held.bindings.find? name with
      | some value => .found scope value
      | none =>
        match held.enclosing with
        | none => .unbound
        | some enclosing => env.searchWithin name visits enclosing

/-- Search for a name from the given scope outwards. A chain without a circle ends
within one visit more than there are scopes. -/
def search (env : Environment V) (scope : ScopeId) (name : String) : Search V :=
  env.searchWithin name (env.depth + 1) scope

end Environment

end LoxLang
