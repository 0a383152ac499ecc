/-
# Handles of scopes

Opening a scope gives a handle of it, which is its place. The handle can be used after the
scope is released, when it names no scope, or another one that has taken the place. Nothing
tells these uses apart.

A search for a name goes outwards from scope to scope. A scope that is opened inside of a
live one lies above it, whatever handle that was named by, and if this is so of all live
scopes, then going outwards is going down and ends. It is not so of a stray scope, one that
is opened inside of a scope that is not live. What encloses it is a place not below its own,
and once that place is taken, going outwards may go in a circle.
-/

import LoxLang.Proofs.Evaluation.Operations

namespace LoxLang

namespace Environment

variable {V : Type} {env : Environment V} {scope outer : ScopeId} {name : String}

/-! ## Going outwards -/

/-- The scopes that are visited in going outwards from a place, up to one that nothing
encloses or up to a place that is not taken. Going in a circle visits no such list. -/
inductive Outwards (env : Environment V) : ScopeId → List ScopeId → Prop
  | dead {scope : ScopeId} : env.enclosing? scope = none → Outwards env scope []
  | outermost {scope : ScopeId} : env.enclosing? scope = some none → Outwards env scope [scope]
  | inner {scope outer : ScopeId} {visited : List ScopeId} :
      env.enclosing? scope = some (some outer) → Outwards env outer visited →
      Outwards env scope (scope :: visited)

/-- Where every scope is enclosed by one below it, the visited ones lie ever further down. -/
theorem Rooted.exists_outwards (h : env.Rooted) (scope : ScopeId) :
    ∃ visited, env.Outwards scope visited ∧ visited.Nodup ∧
      ∀ seen ∈ visited, seen.index ≤ scope.index := by
  obtain ⟨index⟩ := scope
  induction index using Nat.strongRecOn with
  | _ index ih =>
      by_cases hdead : env.depth ≤ index
      · exact ⟨[], .dead (enclosing?_eq_none_iff.mpr hdead), List.nodup_nil, List.forall_mem_nil _⟩
      by_cases hglobal : (⟨index⟩ : ScopeId) = .global
      · rw [hglobal]
        exact ⟨[.global], .outermost h.global, by simp, by simp⟩
      obtain ⟨outer, henclosing, hlower⟩ := h.lower hglobal (Nat.lt_of_not_le hdead)
      obtain ⟨visited, hvisited, hnodup, hdown⟩ := ih outer.index hlower
      have hunseen : (⟨index⟩ : ScopeId) ∉ visited := fun hseen =>
        Nat.not_le_of_lt hlower (hdown _ hseen)
      refine ⟨_, .inner henclosing hvisited, List.nodup_cons.mpr ⟨hunseen, hnodup⟩, ?_⟩
      refine List.forall_mem_cons.mpr ⟨Nat.le_refl _, fun seen hseen => ?_⟩
      exact Nat.le_trans (hdown seen hseen) (Nat.le_of_lt hlower)

/-- Scopes that enclose each other lead nowhere else. -/
theorem not_outwards_of_circle (hscope : env.enclosing? scope = some (some outer))
    (houter : env.enclosing? outer = some (some scope)) {visited : List ScopeId} :
    ¬ env.Outwards scope visited := by
  intro h
  induction h generalizing outer with
  | dead hdead =>
      rw [hdead] at hscope
      cases hscope
  | outermost houtermost =>
      rw [houtermost] at hscope
      cases hscope
  | inner henclosing _ ih =>
      rw [henclosing] at hscope
      cases hscope
      exact ih houter henclosing

/-- From a place that is not taken no scope is searched. -/
theorem search_of_dead (h : env.depth ≤ scope.index) : env.search scope name = .unbound := by
  have hnone : env.scopes[scope.index]? = none := getElem?_eq_none_iff env |>.mpr h
  simp only [search, searchWithin, hnone]

/-- So a search ends wherever it starts. -/
theorem Rooted.search_ne_endless (h : env.Rooted) : env.search scope name ≠ .endless := by
  by_cases hdead : env.depth ≤ scope.index
  · rw [search_of_dead hdead]
    exact nofun
  · rw [search_eq_resolve h (Nat.lt_of_not_le hdead)]
    cases env.resolve scope name <;> exact nofun

end Environment

namespace Machine

variable {machine : Machine} {scope : ScopeId} {handles strays : List ScopeId}

/-- The handles there are after an operation. -/
def handlesAfter (machine : Machine) (handles : List ScopeId) : Operation → List ScopeId
  | .push => machine.environment.next :: handles
  | _ => handles

/-- The live scopes, after an operation in the given scope, that were opened inside of one
that was not live by then. -/
def straysAfter (machine : Machine) (scope : ScopeId) (strays : List ScopeId) :
    Operation → List ScopeId
  | .push =>
    if scope.index < machine.environment.depth then strays
    else machine.environment.next :: strays
  | .pop => strays.filter fun stray => stray.index < (machine.environment.pop scope).depth
  | _ => strays

/-- The machine is what operations lead to, starting with no more than an empty global scope,
each in a place that is global or that opening a scope has given, whether the scope is live
or was released since. The lists are the handles there are and the stray scopes. -/
inductive Handled : Machine → List ScopeId → List ScopeId → Prop
  | start {machine : Machine} : machine.environment = .empty → Handled machine [.global] []
  | operate {machine : Machine} {scope : ScopeId} {handles strays : List ScopeId}
      (operation : Operation) : Handled machine handles strays → scope ∈ handles →
      Handled (machine.operate scope operation) (machine.handlesAfter handles operation)
        (machine.straysAfter scope strays operation)

/-- Going outwards from any live scope visits no scope twice, and looking up and assigning
end for every name from every place, be it live or not. -/
structure Searchable (machine : Machine) : Prop where
  outwards (scope : ScopeId) : scope.index < machine.environment.depth →
    ∃ visited, machine.environment.Outwards scope visited ∧ visited.Nodup
  get (scope : ScopeId) (name : Token) :
    (∃ held, machine.got scope name = .value held) ∨
      machine.got scope name = .fault (.program ⟨.undefinedVariable name.lexeme, name.line⟩)
  assign (scope : ScopeId) (name : Token) (value : Value) :
    machine.assigned scope name value = .value () ∨
      machine.assigned scope name value =
        .fault (.program ⟨.undefinedVariable name.lexeme, name.line⟩)

/-- Values that are bound enclose nothing, and neither do values that are looked up. -/
theorem rootedBut_operate (h : machine.environment.RootedBut strays) (scope : ScopeId)
    (operation : Operation) : (machine.operate scope operation).environment.RootedBut
      (machine.straysAfter scope strays operation) := by
  have hdefine (bound : ScopeId) (name : String) (value : Value) :
      (machine.environment.define bound name value).RootedBut strays :=
    h.congr (Environment.depth_define _ _ _ _) (Environment.enclosing?_define bound name value)
  cases operation with
  | push => exact h.push scope
  | pop => exact h.pop scope
  | define name value => exact hdefine scope name.lexeme value
  | assign name value =>
      rw [operate, Action.overwrite]
      split
      · exact hdefine _ name.lexeme value
      · exact h
      · exact h
  | get name =>
      rw [operate, Action.lookUp]
      split
      · exact h
      · exact h
      · exact h

/-- All live scopes but the stray ones are enclosed by one below. -/
theorem Handled.rootedBut (h : Handled machine handles strays) :
    machine.environment.RootedBut strays := by
  induction h with
  | start hempty =>
      rw [hempty]
      exact Environment.rootedBut_nil_iff.mpr Environment.rooted_empty
  | operate operation _ _ ih => exact rootedBut_operate ih _ operation

/-- As long as no live scope was opened inside of one that was not live by then, all searches
end, whatever handles were used and however. -/
theorem searchable_of_handled (h : Handled machine handles []) : machine.Searchable := by
  have hrooted : machine.environment.Rooted := Environment.rootedBut_nil_iff.mp h.rootedBut
  constructor
  · intro scope _
    obtain ⟨visited, hvisited, hnodup, _⟩ := hrooted.exists_outwards scope
    exact ⟨visited, hvisited, hnodup⟩
  · intro scope name
    rw [got, Action.lookUp]
    split
    next bound held hfound => exact .inl ⟨held, rfl⟩
    next => exact .inr rfl
    next hendless => exact absurd hendless hrooted.search_ne_endless
  · intro scope name value
    rw [assigned, Action.overwrite]
    split
    next => exact .inl rfl
    next => exact .inr rfl
    next hendless => exact absurd hendless hrooted.search_ne_endless

/-- A scope that is opened in its own place, which was released before, does no harm once it is
released as well. -/
theorem searchable_of_handled_released :
    ((((({ start (.ticking 0) .unlimited with environment := .empty } : Machine).operate
      .global .push).operate ⟨1⟩ .pop).operate ⟨1⟩ .push).operate ⟨1⟩ .pop).Searchable := by
  have hstart : Handled { start (.ticking 0) .unlimited with environment := .empty } [.global] [] :=
    .start rfl
  have hopened := @Handled.operate _ .global _ _ .push hstart (by decide)
  have hreleased := @Handled.operate _ ⟨1⟩ _ _ .pop hopened (by decide)
  have hstray := @Handled.operate _ ⟨1⟩ _ _ .push hreleased (by decide)
  exact searchable_of_handled (@Handled.operate _ ⟨1⟩ _ _ .pop hstray (by decide))

/-- Two scopes may enclose each other. Here the first one is opened inside of a scope that was
released, the second one inside of the first, and the second takes the place of the released
one. No list of scopes leads outwards from the first, and looking up a name there that neither
of them binds does not end. -/
theorem handled_circle : ∃ machine handles strays, Handled machine handles strays ∧
    ⟨1⟩ ∈ handles ∧ 1 < machine.environment.depth ∧
    machine.environment.enclosing? ⟨1⟩ = some (some ⟨2⟩) ∧
    machine.environment.enclosing? ⟨2⟩ = some (some ⟨1⟩) ∧
    (∀ visited, ¬ machine.environment.Outwards ⟨1⟩ visited) ∧
    machine.got ⟨1⟩ ⟨.identifier, "a", none, 1⟩ = .outOfFuel := by
  have hstart : Handled { start (.ticking 0) .unlimited with environment := .empty } [.global] [] :=
    .start rfl
  have hfirst := @Handled.operate _ .global _ _ .push hstart (by decide)
  have hsecond := @Handled.operate _ ⟨1⟩ _ _ .push hfirst (by decide)
  have hreleased := @Handled.operate _ ⟨1⟩ _ _ .pop hsecond (by decide)
  have hstray := @Handled.operate _ ⟨2⟩ _ _ .push hreleased (by decide)
  have hcircle := @Handled.operate _ ⟨1⟩ _ _ .push hstray (by decide)
  refine ⟨_, _, _, hcircle, by decide, by decide, rfl, rfl, fun visited hvisited => ?_, rfl⟩
  exact Environment.not_outwards_of_circle rfl rfl hvisited

end Machine

end LoxLang
