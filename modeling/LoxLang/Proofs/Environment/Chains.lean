/-
# Environments as chains of maps

A live scope is read as a list of maps: its own, then that of the scope around it, and so on
out to the global one. A name is resolved in the first map of the list that binds it, and
that is where a search from the scope ends.

What a name is resolved to from one scope depends on the maps of its own list alone. So
releasing scopes makes no difference to those that remain, and giving a new value to a name
where it is bound makes a difference just to what was resolved to that binding.
-/

import LoxLang.Proofs.Environment.Names

namespace LoxLang

/-- The end of a search that comes to what a name is resolved to. -/
def Search.ofResolved {V : Type} : Option (ScopeId × V) → Search V
  | some (bound, value) => .found bound value
  | none => .unbound

namespace Environment

variable {V : Type}

/-- The scopes from the given one outwards, with the global one last. -/
def chain (env : Environment V) (scope : ScopeId) : List ScopeId :=
  env.outward scope ++ [.global]

/-- Which scope binds the name as it is seen from the given one, and to what value: the first
of its chain whose map has the name. -/
def resolve (env : Environment V) (scope : ScopeId) (name : String) : Option (ScopeId × V) :=
  (env.chain scope).findSome? fun bound => ((env.bindingsAt bound).find? name).map (bound, ·)

/-- The second environment has the scopes of the first, and they bind what they did, but
that the given one binds the name to the value. -/
structure Rebound (before after : Environment V) (scope : ScopeId) (name : String) (value : V) :
    Prop where
  depth : after.depth = before.depth
  enclosing (other : ScopeId) : after.enclosing? other = before.enclosing? other
  bindings (other : ScopeId) (key : String) : (after.bindingsAt other).find? key =
    if other = scope ∧ key = name then some value else (before.bindingsAt other).find? key

variable {env after : Environment V} {scope bound outer : ScopeId} {name : String}
  {value held : V}

/-! ## Chains -/

theorem chain_global : env.chain .global = [.global] := by
  rw [chain, outward_global]
  rfl

theorem Rooted.chain_local (h : env.Rooted) (hlocal : scope ≠ .global)
    (hlive : scope.index < env.depth) :
    ∃ outer, env.enclosing? scope = some (some outer) ∧ outer.index < scope.index ∧
      env.chain scope = scope :: env.chain outer := by
  obtain ⟨outer, henclosing, hlower⟩ := h.lower hlocal hlive
  refine ⟨outer, henclosing, hlower, ?_⟩
  rw [chain, outward_cons hlocal henclosing hlower]
  rfl

theorem index_le_of_mem_chain (h : bound ∈ env.chain scope) : bound.index ≤ scope.index := by
  rcases List.mem_append.mp h with hlocal | hglobal
  · exact (of_mem_outward hlocal).2
  · rw [List.mem_singleton.mp hglobal]
    exact Nat.zero_le _

theorem chain_congr (h : ∀ lower : ScopeId, lower.index ≤ scope.index →
    after.enclosing? lower = env.enclosing? lower) : after.chain scope = env.chain scope := by
  rw [chain, outward_congr h, chain]

/-! ## What a search comes to -/

theorem resolve_of_chain {others : List ScopeId} (h : env.chain scope = scope :: others) :
    env.resolve scope name = (((env.bindingsAt scope).find? name).map (scope, ·)).or
      (others.findSome? fun bound => ((env.bindingsAt bound).find? name).map (bound, ·)) := by
  rw [resolve, h, List.findSome?_cons]
  cases ((env.bindingsAt scope).find? name).map (scope, ·) <;> rfl

/-- A search that may visit every scope up to the one it starts from resolves the name. -/
theorem searchWithin_eq_resolve (h : env.Rooted) (name : String) {visits : Nat}
    (hlive : scope.index < env.depth) (hvisits : scope.index < visits) :
    env.searchWithin name visits scope = .ofResolved (env.resolve scope name) := by
  induction visits generalizing scope with
  | zero => omega
  | succ visits ih =>
      obtain ⟨here, hhere⟩ : ∃ here, env.scopes[scope.index]? = some here :=
        ⟨_, Array.getElem?_eq_getElem hlive⟩
      have hbindings : env.bindingsAt scope = here.bindings := by
        rw [bindingsAt, hhere]
        rfl
      have henclosed : env.enclosing? scope = some here.enclosing := by
        rw [enclosing?, hhere]
        rfl
      simp only [searchWithin, hhere]
      rw [← hbindings]
      by_cases hlocal : scope = .global
      · subst hlocal
        have hnone : here.enclosing = none :=
          (Option.some.inj (h.global.symm.trans henclosed)).symm
        rw [resolve_of_chain chain_global, hnone]
        cases (env.bindingsAt .global).find? name <;> rfl
      · obtain ⟨outer, houter, hlower, hchain⟩ := h.chain_local hlocal hlive
        have hsome : here.enclosing = some outer :=
          (Option.some.inj (houter.symm.trans henclosed)).symm
        rw [resolve_of_chain hchain, hsome]
        cases (env.bindingsAt scope).find? name with
        | some held => rfl
        | none => exact ih (Nat.lt_trans hlower hlive) (by omega)

/-- A search from a live scope resolves the name. -/
theorem search_eq_resolve (h : env.Rooted) (hlive : scope.index < env.depth) (name : String) :
    env.search scope name = .ofResolved (env.resolve scope name) :=
  searchWithin_eq_resolve h name hlive (Nat.lt_succ_of_lt hlive)

/-- The scope that a name is resolved to binds it. -/
theorem find?_of_resolve (h : env.resolve scope name = some (bound, held)) :
    (env.bindingsAt bound).find? name = some held := by
  obtain ⟨other, -, hother⟩ := List.exists_of_findSome?_eq_some h
  obtain ⟨_, hfind, heq⟩ := Option.map_eq_some_iff.mp hother
  cases heq
  exact hfind

/-- What binds a name is live. -/
theorem live_of_find? (h : (env.bindingsAt bound).find? name = some held) :
    bound.index < env.depth := by
  apply Nat.lt_of_not_le
  intro hdead
  rw [bindingsAt_of_dead hdead] at h
  cases h

/-! ## What operations change -/

theorem rebound_define (hlive : scope.index < env.depth) (name : String) (value : V) :
    env.Rebound (env.define scope name value) scope name value := by
  refine ⟨depth_define env scope name value, enclosing?_define scope name value, ?_⟩
  intro other key
  rw [bindingsAt_define hlive]
  by_cases hscope : scope = other
  · subst hscope
    rw [if_pos rfl]
    by_cases hkey : key = name
    · subst hkey
      rw [Bindings.find?_bind_self, if_pos ⟨rfl, rfl⟩]
    · rw [Bindings.find?_bind_of_ne hkey, if_neg fun h => hkey h.2]
  · rw [if_neg hscope, if_neg fun h => hscope h.1.symm]

/-- If a name gets a new value where it is bound, then all is resolved as before, but that
what is resolved to that binding has the new value. -/
theorem Rebound.resolve (h : env.Rebound after bound name value)
    (hfind : (env.bindingsAt bound).find? name = some held) (scope : ScopeId) (key : String) :
    after.resolve scope key = (env.resolve scope key).map fun found =>
      (found.1, if found.1 = bound ∧ key = name then value else found.2) := by
  rw [Environment.resolve, chain_congr fun lower _ => h.enclosing lower, Environment.resolve]
  induction env.chain scope with
  | nil => rfl
  | cons first others ih =>
      rw [List.findSome?_cons, List.findSome?_cons, h.bindings]
      by_cases hsame : first = bound ∧ key = name
      · obtain ⟨rfl, rfl⟩ := hsame
        simp [hfind]
      · rw [if_neg hsame]
        cases (env.bindingsAt first).find? key with
        | none => exact ih
        | some found => simp [hsame]

/-- What a name is resolved to depends on the maps of the chain alone. -/
theorem resolve_congr (hchain : after.chain scope = env.chain scope)
    (hbindings : ∀ seen ∈ env.chain scope, after.bindingsAt seen = env.bindingsAt seen)
    (name : String) : after.resolve scope name = env.resolve scope name := by
  rw [resolve, hchain, resolve]
  revert hbindings
  induction env.chain scope with
  | nil => exact fun _ => rfl
  | cons first others ih =>
      intro hbindings
      obtain ⟨hfirst, hothers⟩ := List.forall_mem_cons.mp hbindings
      rw [List.findSome?_cons, List.findSome?_cons, hfirst, ih hothers]

/-- Of what remains after scopes are released, all is resolved as before. -/
theorem resolve_pop {released : ScopeId} (hkept : scope.index < max released.index 1)
    (name : String) : (env.pop released).resolve scope name = env.resolve scope name := by
  apply resolve_congr
  · apply chain_congr
    intro lower hle
    rw [enclosing?_pop, if_pos (Nat.lt_of_le_of_lt hle hkept)]
  · intro seen hseen
    exact bindingsAt_pop (Nat.lt_of_le_of_lt (index_le_of_mem_chain hseen) hkept)

/-- Opening a scope makes no difference to those that are live. -/
theorem resolve_push (hlive : scope.index < env.depth) (enclosing : ScopeId) (name : String) :
    (env.push enclosing).resolve scope name = env.resolve scope name := by
  apply resolve_congr
  · apply chain_congr
    intro lower hle
    rw [enclosing?_push, if_neg (ne_next (Nat.lt_of_le_of_lt hle hlive))]
  · exact fun _ _ => bindingsAt_push

/-- From a new scope all is resolved as from the one that it is opened in. -/
theorem resolve_next (hlive : outer.index < env.depth) (name : String) :
    (env.push outer).resolve env.next name = env.resolve outer name := by
  have hchain : (env.push outer).chain env.next = env.next :: (env.push outer).chain outer := by
    rw [chain, outward_cons next_ne_global (by rw [enclosing?_push, if_pos rfl]) hlive]
    rfl
  rw [resolve_of_chain hchain, bindingsAt_push, bindingsAt_next, ← resolve_push hlive outer]
  rfl

end Environment

end LoxLang
