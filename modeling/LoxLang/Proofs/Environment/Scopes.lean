/-
# Scopes by their place

What opening, releasing and binding do to the scope at a given place: to its bindings,
to the scope that encloses it, and to the values that are stored anywhere.
-/

import LoxLang.Environment

namespace LoxLang

namespace Bindings

variable {V : Type} {name : String} {value : V} {bindings : Bindings V}

theorem mem_of_mem_bind {entry : String × V} (h : entry ∈ bind name value bindings) :
    entry ∈ bindings ∨ entry.2 = value := by
  induction bindings with
  | nil =>
      rw [bind, List.mem_singleton] at h
      exact .inr (by rw [h])
  | cons first rest ih =>
      obtain ⟨other, held⟩ := first
      rw [bind] at h
      split at h
      · rcases List.mem_cons.mp h with heq | hrest
        · exact .inr (by rw [heq])
        · exact .inl (List.mem_cons_of_mem _ hrest)
      · rcases List.mem_cons.mp h with heq | hrest
        · exact .inl (heq ▸ List.mem_cons_self)
        · rcases ih hrest with hrest | hvalue
          · exact .inl (List.mem_cons_of_mem _ hrest)
          · exact .inr hvalue

theorem mem_of_find? (h : find? name bindings = some value) : (name, value) ∈ bindings := by
  induction bindings with
  | nil => cases h
  | cons first rest ih =>
      obtain ⟨other, held⟩ := first
      rw [find?] at h
      split at h
      next heq =>
        cases h
        rw [heq]
        exact List.mem_cons_self
      next => exact List.mem_cons_of_mem _ (ih h)

end Bindings

namespace Environment

variable {V : Type} (env : Environment V)

/-! ## The scope at a place -/

theorem getElem?_push (enclosing : ScopeId) (index : Nat) :
    (env.push enclosing).scopes[index]? =
      if index = env.depth then some ⟨[], some enclosing⟩ else env.scopes[index]? := by
  rw [push, Array.getElem?_push, depth]

theorem getElem?_pop (scope : ScopeId) (index : Nat) :
    (env.pop scope).scopes[index]? =
      if index < max scope.index 1 then env.scopes[index]? else none := by
  rw [pop, ← Array.getElem?_toList, Array.toList_shrink, List.getElem?_take,
    Array.getElem?_toList]

theorem getElem?_define (scope : ScopeId) (name : String) (value : V) (index : Nat) :
    (env.define scope name value).scopes[index]? =
      if scope.index = index then
        env.scopes[index]?.map fun held => { held with bindings := held.bindings.bind name value }
      else env.scopes[index]? := by
  rw [define, Array.getElem?_modify]

theorem getElem?_eq_none_iff {index : Nat} : env.scopes[index]? = none ↔ env.depth ≤ index :=
  Array.getElem?_eq_none_iff

/-! ## What encloses a scope -/

/-- What encloses a scope, if the scope is live. -/
def enclosing? (scope : ScopeId) : Option (Option ScopeId) :=
  env.scopes[scope.index]?.map Scope.enclosing

variable {env}

theorem enclosing?_push (enclosing scope : ScopeId) :
    (env.push enclosing).enclosing? scope =
      if scope = env.next then some (some enclosing) else env.enclosing? scope := by
  rw [enclosing?, getElem?_push]
  cases scope with
  | mk index =>
      simp only [next, ScopeId.mk.injEq]
      change (if index = env.depth then _ else _ : Option (Scope V)).map _ =
        if index = env.depth then _ else _
      split <;> rfl

theorem enclosing?_pop (released scope : ScopeId) :
    (env.pop released).enclosing? scope =
      if scope.index < max released.index 1 then env.enclosing? scope else none := by
  rw [enclosing?, getElem?_pop]
  split <;> rfl

@[simp]
theorem enclosing?_define (bound : ScopeId) (name : String) (value : V) (scope : ScopeId) :
    (env.define bound name value).enclosing? scope = env.enclosing? scope := by
  rw [enclosing?, getElem?_define]
  split
  · rw [Option.map_map]
    rfl
  · rfl

@[simp]
theorem enclosing?_defineAll (bound : ScopeId) (names : List String) (values : List V)
    (scope : ScopeId) :
    (env.defineAll bound names values).enclosing? scope = env.enclosing? scope := by
  induction names generalizing env values with
  | nil => cases values <;> rfl
  | cons name names ih =>
      cases values with
      | nil => rfl
      | cons value values => rw [defineAll, ih, enclosing?_define]

theorem enclosing?_eq_none_iff {scope : ScopeId} :
    env.enclosing? scope = none ↔ env.depth ≤ scope.index := by
  rw [enclosing?, Option.map_eq_none_iff, getElem?_eq_none_iff]

/-! ## Stored values -/

/-- Some live scope binds a name to the value. -/
def Stores (env : Environment V) (value : V) : Prop :=
  ∃ (index : Nat) (held : Scope V) (name : String),
    env.scopes[index]? = some held ∧ (name, value) ∈ held.bindings

variable {value : V}

theorem Stores.of_push {enclosing : ScopeId} (h : (env.push enclosing).Stores value) :
    env.Stores value := by
  obtain ⟨index, held, name, hheld, hmem⟩ := h
  rw [getElem?_push] at hheld
  split at hheld
  · cases hheld
    cases hmem
  · exact ⟨index, held, name, hheld, hmem⟩

theorem Stores.of_pop {scope : ScopeId} (h : (env.pop scope).Stores value) : env.Stores value := by
  obtain ⟨index, held, name, hheld, hmem⟩ := h
  rw [getElem?_pop] at hheld
  split at hheld
  · exact ⟨index, held, name, hheld, hmem⟩
  · cases hheld

theorem Stores.of_define {scope : ScopeId} {name : String} {bound : V}
    (h : (env.define scope name bound).Stores value) : env.Stores value ∨ value = bound := by
  obtain ⟨index, held, other, hheld, hmem⟩ := h
  rw [getElem?_define] at hheld
  split at hheld
  · obtain ⟨before, hbefore, rfl⟩ := Option.map_eq_some_iff.mp hheld
    rcases Bindings.mem_of_mem_bind hmem with hmem | hvalue
    · exact .inl ⟨index, before, other, hbefore, hmem⟩
    · exact .inr hvalue
  · exact .inl ⟨index, held, other, hheld, hmem⟩

theorem Stores.of_defineAll {scope : ScopeId} {names : List String} {values : List V}
    (h : (env.defineAll scope names values).Stores value) :
    env.Stores value ∨ value ∈ values := by
  induction names generalizing env values with
  | nil =>
      cases values with
      | nil => exact .inl h
      | cons => exact .inl h
  | cons name names ih =>
      cases values with
      | nil => exact .inl h
      | cons bound values =>
          rcases ih h with hstores | hmem
          · rcases hstores.of_define with hstores | heq
            · exact .inl hstores
            · exact .inr (heq ▸ List.mem_cons_self)
          · exact .inr (List.mem_cons_of_mem _ hmem)

theorem stores_of_searchWithin {name : String} {visits : Nat} {start found : ScopeId}
    (h : env.searchWithin name visits start = .found found value) : env.Stores value := by
  induction visits generalizing start with
  | zero => cases h
  | succ visits ih =>
      rw [searchWithin] at h
      split at h
      next => cases h
      next held hheld =>
        split at h
        next bound hbound =>
          cases h
          exact ⟨_, held, name, hheld, Bindings.mem_of_find? hbound⟩
        next =>
          split at h
          next => cases h
          next => exact ih h

end Environment

end LoxLang
