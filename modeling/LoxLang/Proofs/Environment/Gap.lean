/-
# An empty map among the names

An empty map between the others binds nothing, so that a search passes through it. Looking
up and assigning do the same with it as without. Declaring does too if the empty map is
not the innermost one, since then the name is bound in a map that both have.

Environments are the same if their scopes enclose each other in the same way and bind the
same.
-/

import LoxLang.Proofs.Environment.Names

namespace LoxLang

namespace Names

variable {V : Type} {names : Names V} {bindings : Bindings V} {name : String} {value : V}

/-- The names with an empty map behind so many of the local ones, if there are as many. -/
def gap (place : Nat) (names : Names V) : Names V :=
  { names with locals := names.locals.insertIdx place [] }

theorem findSome?_insertIdx (locals : List (Bindings V)) (place : Nat) :
    (locals.insertIdx place []).findSome? (Bindings.find? name) =
      locals.findSome? (Bindings.find? name) := by
  induction place generalizing locals with
  | zero => rfl
  | succ place ih =>
      cases locals with
      | nil => rfl
      | cons first others =>
          rw [List.insertIdx_succ_cons, List.findSome?_cons, List.findSome?_cons, ih]

theorem find?_gap (place : Nat) : (names.gap place).find? name = names.find? name := by
  rw [find?, find?, List.findSome?_append, List.findSome?_append]
  exact congrArg (Option.or · _) (findSome?_insertIdx names.locals place)

theorem assignIn_insertIdx (locals : List (Bindings V)) (place : Nat) :
    assignIn name value (locals.insertIdx place []) =
      (assignIn name value locals).map (List.insertIdx · place []) := by
  induction place generalizing locals with
  | zero => rfl
  | succ place ih =>
      cases locals with
      | nil => rfl
      | cons first others =>
          rw [List.insertIdx_succ_cons, assignIn, assignIn, ih]
          split
          · rfl
          · cases assignIn name value others <;> rfl

theorem assign_gap (place : Nat) :
    (names.gap place).assign name value = (names.assign name value).map (gap place) := by
  simp only [assign, gap, assignIn_insertIdx]
  cases assignIn name value names.locals with
  | some locals => rfl
  | none =>
      rw [Option.map_none, apply_ite (Option.map (gap place))]
      rfl

theorem declare_gap (place : Nat) :
    (names.gap (place + 1)).declare name value = (names.declare name value).gap (place + 1) := by
  obtain ⟨_ | ⟨first, others⟩, globals⟩ := names <;> rfl

end Names

namespace Environment

variable {V : Type} {env other : Environment V}

theorem ext_of_scopes (hdepth : other.depth = env.depth)
    (henclosing : ∀ scope, other.enclosing? scope = env.enclosing? scope)
    (hbindings : ∀ scope, other.bindingsAt scope = env.bindingsAt scope) : other = env := by
  have hscopes : other.scopes = env.scopes := by
    apply Array.ext hdepth
    intro index hother henv
    have hbound := hbindings ⟨index⟩
    have hnamed := henclosing ⟨index⟩
    simp only [bindingsAt, enclosing?, Array.getElem?_eq_getElem hother,
      Array.getElem?_eq_getElem henv, Option.map_some, Option.getD_some,
      Option.some.injEq] at hbound hnamed
    generalize other.scopes[index] = left at hbound hnamed
    generalize env.scopes[index] = right at hbound hnamed
    obtain ⟨bindings, enclosing⟩ := left
    cases hbound
    cases hnamed
    rfl
  cases env
  cases other
  cases hscopes
  rfl

end Environment

end LoxLang
