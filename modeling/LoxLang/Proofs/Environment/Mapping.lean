/-
# Environments with other values

What an environment does depends on no value that is bound in it. So it makes no
difference whether values are replaced by others before an operation or after it.
-/

import LoxLang.Proofs.Environment.Scopes

namespace LoxLang

variable {U V W : Type}

namespace Bindings

/-- The bindings with their values replaced. -/
def mapValues (f : V → W) (bindings : Bindings V) : Bindings W :=
  List.map (Prod.map id f) bindings

variable (f : V → W) (name : String) (bindings : Bindings V)

theorem find?_mapValues : find? name (bindings.mapValues f) = (find? name bindings).map f := by
  induction bindings with
  | nil => rfl
  | cons first rest ih =>
      obtain ⟨other, held⟩ := first
      show (if other = name then some (f held) else find? name (mapValues f rest)) = _
      by_cases heq : other = name
      · rw [if_pos heq, find?, if_pos heq]
        rfl
      · rw [if_neg heq, find?, if_neg heq, ih]

theorem mapValues_bind (value : V) :
    (bind name value bindings).mapValues f = bind name (f value) (bindings.mapValues f) := by
  induction bindings with
  | nil => rfl
  | cons first rest ih =>
      obtain ⟨other, held⟩ := first
      show _ = (if other = name then (other, f value) :: mapValues f rest
        else (other, f held) :: bind name (f value) (mapValues f rest))
      by_cases heq : other = name
      · rw [if_pos heq, bind, if_pos heq]
        rfl
      · rw [if_neg heq, bind, if_neg heq, ← ih]
        rfl

theorem mapValues_id : bindings.mapValues id = bindings :=
  List.map_id bindings

theorem mapValues_mapValues (g : U → V) (bindings : Bindings U) :
    (bindings.mapValues g).mapValues f = bindings.mapValues (f ∘ g) :=
  List.map_map

end Bindings

/-- The scope with its values replaced. -/
def Scope.map (f : V → W) (scope : Scope V) : Scope W :=
  ⟨scope.bindings.mapValues f, scope.enclosing⟩

/-- The end of a search with the value replaced that it found. -/
def Search.map (f : V → W) : Search V → Search W
  | .found scope value => .found scope (f value)
  | .unbound => .unbound
  | .endless => .endless

namespace Environment

/-- The environment with its values replaced. -/
def map (f : V → W) (env : Environment V) : Environment W :=
  ⟨env.scopes.map (Scope.map f), by rw [Array.size_map]; exact env.global_live⟩

variable (f : V → W) (env : Environment V) (scope : ScopeId) (name : String)

@[simp]
theorem depth_map : (env.map f).depth = env.depth :=
  Array.size_map

@[simp]
theorem next_map : (env.map f).next = env.next :=
  congrArg ScopeId.mk (depth_map f env)

theorem getElem?_map (index : Nat) :
    (env.map f).scopes[index]? = env.scopes[index]?.map (Scope.map f) :=
  Array.getElem?_map

/-- Environments are told apart by their scopes. -/
theorem ext_getElem? {first second : Environment V}
    (h : ∀ index : Nat, first.scopes[index]? = second.scopes[index]?) : first = second := by
  cases first
  cases second
  congr
  exact Array.ext_getElem? h

theorem map_id : env.map id = env := by
  apply ext_getElem?
  intro index
  rw [getElem?_map]
  cases env.scopes[index]? with
  | none => rfl
  | some held =>
      show some (Scope.mk (held.bindings.mapValues id) held.enclosing) = _
      rw [Bindings.mapValues_id]

theorem map_map (g : U → V) (env : Environment U) : (env.map g).map f = env.map (f ∘ g) := by
  apply ext_getElem?
  intro index
  rw [getElem?_map, getElem?_map, getElem?_map, Option.map_map]
  congr 1
  funext held
  show Scope.mk ((held.bindings.mapValues g).mapValues f) held.enclosing = _
  rw [Bindings.mapValues_mapValues]
  rfl

@[simp]
theorem map_push (enclosing : ScopeId) :
    (env.push enclosing).map f = (env.map f).push enclosing := by
  apply ext_getElem?
  intro index
  rw [getElem?_map, getElem?_push, getElem?_push, depth_map, getElem?_map]
  split <;> rfl

@[simp]
theorem map_pop : (env.pop scope).map f = (env.map f).pop scope := by
  apply ext_getElem?
  intro index
  rw [getElem?_map, getElem?_pop, getElem?_pop, getElem?_map]
  split <;> rfl

@[simp]
theorem map_define (value : V) :
    (env.define scope name value).map f = (env.map f).define scope name (f value) := by
  apply ext_getElem?
  intro index
  rw [getElem?_map, getElem?_define, getElem?_define, getElem?_map]
  split
  · rw [Option.map_map, Option.map_map]
    congr 1
    funext held
    show Scope.mk ((held.bindings.bind name value).mapValues f) held.enclosing = _
    rw [Bindings.mapValues_bind]
    rfl
  · rfl

@[simp]
theorem map_defineAll (names : List String) (values : List V) :
    (env.defineAll scope names values).map f =
      (env.map f).defineAll scope names (values.map f) := by
  induction names generalizing env values with
  | nil => cases values <;> rfl
  | cons name names ih =>
      cases values with
      | nil => rfl
      | cons value values => rw [defineAll, ih, map_define, List.map_cons, defineAll]

theorem searchWithin_map (visits : Nat) :
    (env.map f).searchWithin name visits scope = (env.searchWithin name visits scope).map f := by
  induction visits generalizing scope with
  | zero => rfl
  | succ visits ih =>
      rw [searchWithin, searchWithin, getElem?_map]
      cases env.scopes[scope.index]? with
      | none => rfl
      | some held =>
          obtain ⟨bindings, enclosing⟩ := held
          dsimp only [Option.map_some, Scope.map]
          rw [Bindings.find?_mapValues]
          cases hfind : bindings.find? name with
          | some value => simp only [Option.map_some, Search.map]
          | none =>
              cases enclosing with
              | none => simp only [Option.map_none, Search.map]
              | some enclosing => simp only [Option.map_none, ih]

/-- A search goes by the names and finds what is there instead. -/
theorem search_map : (env.map f).search scope name = (env.search scope name).map f := by
  rw [search, search, depth_map, searchWithin_map]

end Environment

end LoxLang
