/-
# Machines seen as settings

What a machine shows of itself: the names in sight from its current scope, and what it
has besides scopes. Everything an action does is told by what it does to the view, as
long as the machine is well formed and its scopes lead outwards to the global one.

The scopes that are not in sight are left as they were. This is what makes a call give
back the names its caller sees.
-/

import LoxLang.Proofs.Environment.Names
import LoxLang.Proofs.Evaluation.Meaning
import LoxLang.Proofs.Evaluation.Restoration

namespace LoxLang

namespace Machine

variable {machine inner : Machine} {enclosing scope : ScopeId} {names : List Token}
  {values : List Value}

/-- What the machine shows. -/
def view (machine : Machine) : Setting where
  names := machine.environment.names machine.current
  callDepth := machine.callDepth
  supply := machine.supply
  clock := machine.clock
  output := machine.output

/-- The machine is well formed, and all its scopes lead outwards to the global one. -/
structure Standing (machine : Machine) : Prop where
  wellFormed : machine.WellFormed
  rooted : machine.environment.Rooted

/-! ## Scopes that are not in sight -/

/-- The second machine restores the first, and binds in local scopes that the first does
not see what the first binds there. -/
structure Framed (before after : Machine) : Prop extends Restored before after where
  unseen {scope : ScopeId} : scope ≠ .global →
    scope ∉ before.environment.outward before.current →
      after.environment.bindingsAt scope = before.environment.bindingsAt scope

theorem Restored.outward {after : Machine} (h : machine.Restored after) :
    after.environment.outward after.current = machine.environment.outward machine.current := by
  rw [h.current]
  exact Environment.outward_congr fun lower _ => h.enclosing lower

theorem Framed.refl (machine : Machine) : machine.Framed machine :=
  ⟨.refl machine, fun _ _ => rfl⟩

theorem Framed.trans {first second third : Machine} (h : first.Framed second)
    (hlater : second.Framed third) : first.Framed third := by
  refine ⟨h.toRestored.trans hlater.toRestored, fun hlocal hunseen => ?_⟩
  rw [hlater.unseen hlocal, h.unseen hlocal hunseen]
  rw [h.toRestored.outward]
  exact hunseen

/-- A machine with the same scopes, of which the same one is current, is framed. -/
theorem Framed.of_restored {after : Machine} (h : machine.Restored after)
    (hsame : after.environment = machine.environment) : machine.Framed after := by
  refine ⟨h, fun _ _ => ?_⟩
  rw [hsame]

theorem framed_define (hlive : scope.index < machine.environment.depth)
    (hseen : scope = .global ∨ scope ∈ machine.environment.outward machine.current)
    (name : String) (value : Value) :
    machine.Framed { machine with environment := machine.environment.define scope name value } := by
  refine ⟨restored_define scope name value, fun hlocal hunseen => ?_⟩
  rw [Environment.bindingsAt_define hlive, if_neg]
  rintro rfl
  rcases hseen with hglobal | hmem
  · exact hlocal hglobal
  · exact hunseen hmem

/-- The current scope is the global one, or it is in sight of itself. -/
theorem Standing.current_seen (h : machine.Standing) :
    machine.current = .global ∨ machine.current ∈ machine.environment.outward machine.current := by
  by_cases hlocal : machine.current = .global
  · exact .inl hlocal
  · obtain ⟨outer, henclosing, hlower⟩ := h.rooted.lower hlocal h.wellFormed.current_live
    refine .inr ?_
    rw [Environment.outward_cons hlocal henclosing hlower]
    exact List.mem_cons_self

/-- What a search finds is in sight. -/
theorem Standing.found_seen (h : machine.Standing) {name : String} {value : Value}
    (hfound : machine.environment.search machine.current name = .found scope value) :
    scope = .global ∨ scope ∈ machine.environment.outward machine.current := by
  have hanswer := Environment.search_answer h.rooted h.wellFormed.current_live name
  rw [hfound] at hanswer
  cases hanswer with
  | found hseen => exact hseen

theorem Standing.live_of_seen (h : machine.Standing)
    (hseen : scope = .global ∨ scope ∈ machine.environment.outward machine.current) :
    scope.index < machine.environment.depth := by
  rcases hseen with rfl | hmem
  · exact machine.environment.global_live
  · exact Nat.lt_of_le_of_lt (Environment.of_mem_outward hmem).2 h.wellFormed.current_live

/-! ## Entering and leaving -/

theorem bindingsAt_enter :
    (machine.enter enclosing names values).environment.bindingsAt scope =
      if machine.environment.next = scope then
        Bindings.bindAll (names.map Token.lexeme) values []
      else machine.environment.bindingsAt scope := by
  have hlive : machine.environment.next.index < (machine.environment.push enclosing).depth := by
    rw [Environment.depth_push]
    exact Nat.lt_succ_self _
  rw [enter, Environment.bindingsAt_defineAll hlive, Environment.bindingsAt_push]
  split
  next heq => rw [← heq, Environment.bindingsAt_next]
  next => rfl

theorem outward_enter (hlive : enclosing.index < machine.environment.depth) :
    (machine.enter enclosing names values).environment.outward machine.environment.next =
      machine.environment.next :: machine.environment.outward enclosing := by
  rw [Environment.outward_cons Environment.next_ne_global
    (by rw [enclosing?_enter, if_pos rfl]) hlive]
  congr 1
  apply Environment.outward_congr
  intro lower hle
  rw [enclosing?_enter, if_neg (Environment.ne_next (Nat.lt_of_le_of_lt hle hlive))]

/-- Entering a scope puts a map in front of the names that its enclosing scope sees. -/
theorem view_enter (hlive : enclosing.index < machine.environment.depth) :
    (machine.enter enclosing names values).view =
      { machine.view with
        names := (machine.environment.names enclosing).inner
          (Bindings.bindAll (names.map Token.lexeme) values []) } := by
  have hnames : (machine.enter enclosing names values).environment.names machine.environment.next =
      (machine.environment.names enclosing).inner
        (Bindings.bindAll (names.map Token.lexeme) values []) := by
    rw [Environment.names_cons Environment.next_ne_global
      (by rw [enclosing?_enter, if_pos rfl]) hlive, bindingsAt_enter, if_pos rfl]
    congr 1
    apply Environment.names_congr
    · intro lower hle
      rw [enclosing?_enter, if_neg (Environment.ne_next (Nat.lt_of_le_of_lt hle hlive))]
    · intro lower hlower
      rw [bindingsAt_enter, if_neg]
      rintro rfl
      rcases hlower with hglobal | hmem
      · exact Environment.next_ne_global hglobal
      · exact Environment.ne_next (Nat.lt_of_le_of_lt (Environment.of_mem_outward hmem).2 hlive) rfl
  show Setting.mk _ _ _ _ _ = Setting.mk _ _ _ _ _
  rw [← hnames]
  rfl

theorem bindingsAt_leave (hlive : scope.index < machine.environment.depth) :
    (machine.leave inner).environment.bindingsAt scope = inner.environment.bindingsAt scope :=
  Environment.bindingsAt_pop (Nat.lt_of_lt_of_le hlive (Nat.le_max_left _ _))

theorem enclosing?_leave (hlive : scope.index < machine.environment.depth) :
    (machine.leave inner).environment.enclosing? scope = inner.environment.enclosing? scope := by
  rw [leave]
  show (inner.environment.pop machine.environment.next).enclosing? scope = _
  rw [Environment.enclosing?_pop, if_pos]
  exact Nat.lt_of_lt_of_le hlive (Nat.le_max_left _ _)

/-- Leaving a block drops its map. -/
theorem Standing.view_leave_block (h : machine.Standing)
    (hrestored : (machine.enter machine.current names values).Restored inner) :
    (machine.leave inner).view = { inner.view with names := inner.view.names.outer } := by
  have hlive := h.wellFormed.current_live
  have hnames : inner.environment.names inner.current =
      (inner.environment.names machine.current).inner
        (inner.environment.bindingsAt machine.environment.next) := by
    rw [hrestored.current]
    apply Environment.names_cons Environment.next_ne_global _ hlive
    rw [hrestored.enclosing, enclosing?_enter]
    exact if_pos rfl
  have hleft : (machine.leave inner).environment.names machine.current =
      inner.environment.names machine.current := by
    apply Environment.names_congr
    · intro lower hle
      exact enclosing?_leave (Nat.lt_of_le_of_lt hle hlive)
    · intro lower hlower
      apply bindingsAt_leave
      rcases hlower with rfl | hmem
      · exact machine.environment.global_live
      · exact Nat.lt_of_le_of_lt (Environment.of_mem_outward hmem).2 hlive
  show Setting.mk _ _ _ _ _ = Setting.mk (inner.environment.names inner.current).outer _ _ _ _
  rw [hnames, Names.outer_inner, ← hleft]
  rfl

/-- Leaving a call gives back the local names of the caller. -/
theorem Standing.view_leave_call (h : machine.Standing)
    (hframed : (machine.enter .global names values).Framed inner) :
    (machine.leave inner).view =
      { inner.view with names := ⟨machine.view.names.locals, inner.view.names.globals⟩ } := by
  have houtward : (machine.leave inner).environment.outward machine.current =
      machine.environment.outward machine.current :=
    hframed.toRestored.leave.outward
  have hglobal : ScopeId.global.index < machine.environment.depth := machine.environment.global_live
  have hlocals : ((machine.leave inner).environment.names machine.current).locals =
      (machine.environment.names machine.current).locals := by
    rw [Environment.names, houtward]
    apply List.map_congr_left
    intro scope hmem
    obtain ⟨hlocal, hle⟩ := Environment.of_mem_outward hmem
    have hlive := Nat.lt_of_le_of_lt hle h.wellFormed.current_live
    rw [bindingsAt_leave hlive, hframed.unseen hlocal, bindingsAt_enter,
      if_neg (Environment.ne_next hlive).symm]
    show scope ∉ (machine.enter .global names values).environment.outward machine.environment.next
    rw [outward_enter hglobal, Environment.outward_global]
    exact fun hmem => Environment.ne_next hlive (List.mem_singleton.mp hmem)
  have hglobals : ((machine.leave inner).environment.names machine.current).globals =
      (inner.environment.names inner.current).globals :=
    bindingsAt_leave hglobal
  show Setting.mk _ _ _ _ _ = Setting.mk ⟨(machine.environment.names machine.current).locals,
    (inner.environment.names inner.current).globals⟩ _ _ _ _
  rw [← hlocals, ← hglobals]
  rfl

theorem Framed.leave (h : machine.Standing) (hopens : Opens Value.Closed machine enclosing)
    (hframed : (machine.enter enclosing names values).Framed inner) :
    machine.Framed (machine.leave inner) := by
  refine ⟨hframed.toRestored.leave, fun {scope} hlocal hunseen => ?_⟩
  by_cases hlive : scope.index < machine.environment.depth
  · rw [bindingsAt_leave hlive, hframed.unseen hlocal, bindingsAt_enter,
      if_neg (Environment.ne_next hlive).symm]
    show scope ∉ (machine.enter enclosing names values).environment.outward machine.environment.next
    rw [outward_enter (h.wellFormed.of_opens hopens), List.mem_cons]
    rintro (heq | hmem)
    · exact Environment.ne_next hlive heq
    · rcases hopens with rfl | ⟨function, hclosed, rfl⟩
      · exact hunseen hmem
      · rw [show function.closure = .global from hclosed, Environment.outward_global] at hmem
        cases hmem
  · have hdead : machine.environment.depth ≤ scope.index := Nat.le_of_not_lt hlive
    rw [Environment.bindingsAt_of_dead hdead, Environment.bindingsAt_of_dead]
    rw [hframed.toRestored.leave.depth]
    exact hdead

theorem Standing.restored (h : machine.Standing) {after : Machine} (hafter : after.WellFormed)
    (hrestored : machine.Restored after) : after.Standing :=
  ⟨hafter, h.rooted.congr hrestored.depth hrestored.enclosing⟩

theorem Standing.enter (h : machine.Standing)
    (henclosing : enclosing.index < machine.environment.depth)
    (hvalues : ∀ value ∈ values, value.Closed) :
    (machine.enter enclosing names values).Standing := by
  refine ⟨h.wellFormed.enter henclosing hvalues, (h.rooted.push henclosing).congr ?_ fun scope => ?_⟩
  · exact Environment.depth_defineAll _ _ _ _
  · exact Environment.enclosing?_defineAll _ _ _ scope

/-- Evaluation keeps machines standing, and does not touch what they do not see. -/
def framing : Discipline where
  Holds := Standing
  Fit := Value.Closed
  Leads _ := Framed
  refl _ := .refl
  trans := .trans
  executing h := h
  plain := Value.closed_of_callable?
  found h hfound := wellFormedness.found h.wellFormed hfound
  overwritten h hfound hvalue := by
    have hseen := h.found_seen hfound
    exact ⟨h.restored (h.wellFormed.define hvalue _ _) (restored_define _ _ _),
      framed_define (h.live_of_seen hseen) hseen _ _⟩
  declared _ h hvalue :=
    ⟨h.restored (h.wellFormed.define hvalue _ _) (restored_define _ _ _),
      framed_define h.wellFormed.current_live h.current_seen _ _⟩
  made name parameters body h := by
    obtain ⟨hclosed, hafter, hrestored⟩ := wellFormedness.made name parameters body h.wellFormed
    exact ⟨hclosed, h.restored hafter hrestored, .of_restored hrestored rfl⟩
  observed clock output h := by
    obtain ⟨hafter, hrestored⟩ := wellFormedness.observed clock output h.wellFormed
    exact ⟨h.restored hafter hrestored, .of_restored hrestored rfl⟩
  entered h hopens hvalues := h.enter (h.wellFormed.of_opens hopens) hvalues
  left h hopens _ hinner hframed :=
    ⟨h.restored (h.wellFormed.leave hinner.wellFormed hframed.toRestored) hframed.toRestored.leave,
      hframed.leave h hopens⟩
  descended h := ⟨wellFormedness.descended h.wellFormed, h.rooted⟩
  ascended h hinner hframed := by
    obtain ⟨hafter, hrestored⟩ :=
      wellFormedness.ascended h.wellFormed hinner.wellFormed hframed.toRestored
    exact ⟨h.restored hafter hrestored, hrestored, hframed.unseen⟩

/-! ## Actions on names -/

theorem Standing.lookUp_of_some (h : machine.Standing) {name : Token} {value : Value}
    (hfind : machine.view.names.find? name.lexeme = some value) :
    Action.lookUp name machine = (.value value, machine) := by
  have hanswer := Environment.search_answer h.rooted h.wellFormed.current_live name.lexeme
  rw [Action.lookUp]
  generalize machine.environment.search machine.current name.lexeme = result at hanswer
  cases hanswer with
  | found _ hvalue =>
      cases hvalue.symm.trans hfind
      rfl
  | unbound hnone => cases hnone.symm.trans hfind

theorem Standing.lookUp_of_none (h : machine.Standing) {name : Token}
    (hfind : machine.view.names.find? name.lexeme = none) :
    Action.lookUp name machine =
      (.fault (Meaning.blame name (.undefinedVariable name.lexeme)), machine) := by
  have hanswer := Environment.search_answer h.rooted h.wellFormed.current_live name.lexeme
  rw [Action.lookUp]
  generalize machine.environment.search machine.current name.lexeme = result at hanswer
  cases hanswer with
  | found _ hvalue => cases hvalue.symm.trans hfind
  | unbound => rfl

theorem Standing.overwrite_of_some (h : machine.Standing) {name : Token} {value : Value}
    {names : Names Value} (hassign : machine.view.names.assign name.lexeme value = some names) :
    ∃ after, Action.overwrite name value machine = (.value (), after) ∧
      after.view = { machine.view with names := names } := by
  have hanswer := Environment.search_answer h.rooted h.wellFormed.current_live name.lexeme
  rw [Action.overwrite]
  generalize machine.environment.search machine.current name.lexeme = result at hanswer
  cases hanswer with
  | found _ _ hassigned =>
      cases (hassigned value).symm.trans hassign
      exact ⟨_, rfl, rfl⟩
  | unbound _ hnone => cases (hnone value).symm.trans hassign

theorem Standing.overwrite_of_none (h : machine.Standing) {name : Token} {value : Value}
    (hassign : machine.view.names.assign name.lexeme value = none) :
    Action.overwrite name value machine =
      (.fault (Meaning.blame name (.undefinedVariable name.lexeme)), machine) := by
  have hanswer := Environment.search_answer h.rooted h.wellFormed.current_live name.lexeme
  rw [Action.overwrite]
  generalize machine.environment.search machine.current name.lexeme = result at hanswer
  cases hanswer with
  | found _ _ hassigned => cases (hassigned value).symm.trans hassign
  | unbound => rfl

theorem Standing.view_define (h : machine.Standing) (name : String) (value : Value) :
    view { machine with environment := machine.environment.define machine.current name value } =
      { machine.view with names := machine.view.names.declare name value } := by
  show Setting.mk _ _ _ _ _ = Setting.mk _ _ _ _ _
  rw [Environment.names_define h.rooted h.wellFormed.current_live]
  rfl

end Machine

end LoxLang
