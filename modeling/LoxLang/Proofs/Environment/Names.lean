/-
# Names in sight

From a scope one sees the names that it binds itself, those of the scope around it where
they are not bound again, and so on outwards to the global scope. What can be seen is
told here by maps alone: a list of them from the inside out, and the global one. There
are no addresses in it.

Looking up, assigning and declaring are defined on such maps, and what an environment
does from a scope is shown to be just that, as long as its scopes lead outwards to the
global one.
-/

import LoxLang.Proofs.Environment.Scopes

namespace LoxLang

/-- Bind each name to the value in the same place, as far as both lists go. -/
def Bindings.bindAll {V : Type} : List String → List V → Bindings V → Bindings V
  | name :: names, value :: values, bindings => bindAll names values (bindings.bind name value)
  | _, _, bindings => bindings

/-- The names in sight with their values. -/
structure Names (V : Type) where
  /-- What the local scopes bind, from the inside out. -/
  locals : List (Bindings V)
  /-- What the global scope binds. -/
  globals : Bindings V

namespace Names

variable {V : Type}

/-- Put a map in front of the others. -/
def inner (bindings : Bindings V) (names : Names V) : Names V :=
  { names with locals := bindings :: names.locals }

/-- Drop the innermost map. -/
def outer (names : Names V) : Names V :=
  { names with locals := names.locals.tail }

/-- The value of a name in the nearest map that binds it. -/
def find? (name : String) (names : Names V) : Option V :=
  (names.locals ++ [names.globals]).findSome? (·.find? name)

/-- Overwrite a name in the nearest of the maps that binds it, if one does. -/
def assignIn (name : String) (value : V) : List (Bindings V) → Option (List (Bindings V))
  | [] => none
  | first :: others =>
    if (first.find? name).isSome then some (first.bind name value :: others)
    else (assignIn name value others).map (first :: ·)

/-- Overwrite a name in the nearest map that binds it, if one does. -/
def assign (name : String) (value : V) (names : Names V) : Option (Names V) :=
  match assignIn name value names.locals with
  | some locals => some { names with locals := locals }
  | none =>
    if (names.globals.find? name).isSome then
      some { names with globals := names.globals.bind name value }
    else none

/-- Bind a name in the innermost map, which is the global one if there is no other. -/
def declare (name : String) (value : V) (names : Names V) : Names V :=
  match names.locals with
  | [] => { names with globals := names.globals.bind name value }
  | first :: others => { names with locals := first.bind name value :: others }

variable {name : String} {value held : V} {bindings : Bindings V} {names : Names V}

@[simp]
theorem outer_inner : (names.inner bindings).outer = names :=
  rfl

theorem declare_inner :
    (names.inner bindings).declare name value = names.inner (bindings.bind name value) :=
  rfl

theorem find?_inner_of_some (h : bindings.find? name = some held) :
    (names.inner bindings).find? name = some held := by
  simp [find?, inner, h]

theorem find?_inner_of_none (h : bindings.find? name = none) :
    (names.inner bindings).find? name = names.find? name := by
  simp [find?, inner, h]

theorem assign_inner_of_some (h : bindings.find? name = some held) :
    (names.inner bindings).assign name value = some (names.inner (bindings.bind name value)) := by
  simp [assign, assignIn, inner, h]

theorem assign_inner_of_none (h : bindings.find? name = none) :
    (names.inner bindings).assign name value =
      (names.assign name value).map (inner bindings) := by
  obtain ⟨locals, globals⟩ := names
  show assign name value ⟨bindings :: locals, globals⟩ = _
  simp only [assign, assignIn, h, Option.isSome_none, Bool.false_eq_true, if_false]
  cases assignIn name value locals with
  | some locals => rfl
  | none =>
      simp only [Option.map_none]
      split <;> rfl

end Names

namespace Environment

variable {V : Type} (env : Environment V)

/-! ## From a scope outwards -/

/-- What a scope binds, which is nothing if it is not live. -/
def bindingsAt (scope : ScopeId) : Bindings V :=
  (env.scopes[scope.index]?.map Scope.bindings).getD []

/-- The local scopes from the given one outwards. -/
def outward (scope : ScopeId) : List ScopeId :=
  if scope = .global then []
  else
    match env.enclosing? scope with
    | some (some outer) =>
      if outer.index < scope.index then scope :: outward outer else [scope]
    | _ => [scope]
termination_by scope.index

/-- The names in sight from a scope. -/
def names (scope : ScopeId) : Names V :=
  ⟨(env.outward scope).map env.bindingsAt, env.bindingsAt .global⟩

/-- Every live scope but the global one is enclosed by one below it, and the global one by
none. So all of them lead outwards to it. -/
structure Rooted : Prop where
  global : env.enclosing? .global = some none
  lower {scope : ScopeId} : scope ≠ .global → scope.index < env.depth →
    ∃ outer, env.enclosing? scope = some (some outer) ∧ outer.index < scope.index

/-- The same, except perhaps for some scopes that went astray. -/
structure RootedBut (strays : List ScopeId) : Prop where
  global : env.enclosing? .global = some none
  lower {scope : ScopeId} : scope ≠ .global → scope.index < env.depth → scope ∉ strays →
    ∃ outer, env.enclosing? scope = some (some outer) ∧ outer.index < scope.index

variable {env} {other : Environment V} {scope outer : ScopeId} {strays : List ScopeId}

@[simp]
theorem outward_global : env.outward .global = [] := by
  rw [outward, if_pos rfl]

theorem outward_cons (hlocal : scope ≠ .global) (henclosing : env.enclosing? scope = some (some outer))
    (hlower : outer.index < scope.index) : env.outward scope = scope :: env.outward outer := by
  rw [outward, if_neg hlocal, henclosing]
  exact if_pos hlower

/-- The scopes outwards from one are local and not above it. -/
theorem of_mem_outward {found : ScopeId} (h : found ∈ env.outward scope) :
    found ≠ .global ∧ found.index ≤ scope.index := by
  fun_induction outward env scope with
  | case1 => cases h
  | case2 scope hlocal outer _ hlower ih =>
      rcases List.mem_cons.mp h with rfl | h
      · exact ⟨hlocal, Nat.le_refl _⟩
      · obtain ⟨hglobal, hle⟩ := ih h
        exact ⟨hglobal, Nat.le_trans hle (Nat.le_of_lt hlower)⟩
  | case3 scope hlocal =>
      rw [List.mem_singleton.mp h]
      exact ⟨hlocal, Nat.le_refl _⟩
  | case4 scope hlocal =>
      rw [List.mem_singleton.mp h]
      exact ⟨hlocal, Nat.le_refl _⟩

/-- The way outwards depends only on how the scopes up to the first enclose each other. -/
theorem outward_congr (h : ∀ lower : ScopeId, lower.index ≤ scope.index →
    other.enclosing? lower = env.enclosing? lower) : other.outward scope = env.outward scope := by
  fun_induction outward env scope with
  | case1 => exact outward_global
  | case2 scope hlocal outer henclosing hlower ih =>
      rw [outward_cons hlocal ((h scope (Nat.le_refl _)).trans henclosing) hlower, ih]
      intro lower hle
      exact h lower (Nat.le_trans hle (Nat.le_of_lt hlower))
  | case3 scope hlocal outer henclosing hlower =>
      rw [outward, if_neg hlocal, h scope (Nat.le_refl _), henclosing]
      exact if_neg hlower
  | case4 scope hlocal hnone =>
      rw [outward, if_neg hlocal, h scope (Nat.le_refl _)]
      split
      next outer henclosing => exact absurd henclosing (hnone outer)
      next => rfl

/-- So what is in sight depends on nothing that lies above. -/
theorem names_congr
    (henclosing : ∀ lower : ScopeId, lower.index ≤ scope.index →
      other.enclosing? lower = env.enclosing? lower)
    (hbindings : ∀ lower, lower = .global ∨ lower ∈ env.outward scope →
      other.bindingsAt lower = env.bindingsAt lower) : other.names scope = env.names scope := by
  rw [names, names, outward_congr henclosing, hbindings .global (.inl rfl)]
  congr 1
  apply List.map_congr_left
  intro lower hlower
  exact hbindings lower (.inr hlower)

theorem names_global : env.names .global = ⟨[], env.bindingsAt .global⟩ := by
  rw [names, outward_global]
  rfl

theorem names_cons (hlocal : scope ≠ .global) (henclosing : env.enclosing? scope = some (some outer))
    (hlower : outer.index < scope.index) :
    env.names scope = (env.names outer).inner (env.bindingsAt scope) := by
  rw [names, outward_cons hlocal henclosing hlower]
  rfl

theorem rootedBut_nil_iff : env.RootedBut [] ↔ env.Rooted :=
  ⟨fun h => ⟨h.global, fun hlocal hlive => h.lower hlocal hlive List.not_mem_nil⟩,
    fun h => ⟨h.global, fun hlocal hlive _ => h.lower hlocal hlive⟩⟩

theorem RootedBut.congr (h : env.RootedBut strays) (hdepth : other.depth = env.depth)
    (henclosing : ∀ scope, other.enclosing? scope = env.enclosing? scope) :
    other.RootedBut strays := by
  constructor
  · rw [henclosing]
    exact h.global
  · intro scope hlocal hlive hstray
    rw [hdepth] at hlive
    rw [henclosing]
    exact h.lower hlocal hlive hstray

theorem Rooted.congr (h : env.Rooted) (hdepth : other.depth = env.depth)
    (henclosing : ∀ scope, other.enclosing? scope = env.enclosing? scope) : other.Rooted :=
  rootedBut_nil_iff.mp ((rootedBut_nil_iff.mpr h).congr hdepth henclosing)

/-! ## Opening and releasing -/

theorem bindingsAt_push {enclosing : ScopeId} :
    (env.push enclosing).bindingsAt scope = env.bindingsAt scope := by
  rw [bindingsAt, bindingsAt, getElem?_push]
  split
  next heq =>
    rw [env.getElem?_eq_none_iff.mpr (Nat.le_of_eq heq.symm)]
    rfl
  next => rfl

theorem bindingsAt_of_dead (hdead : env.depth ≤ scope.index) : env.bindingsAt scope = [] := by
  rw [bindingsAt, env.getElem?_eq_none_iff.mpr hdead]
  rfl

theorem bindingsAt_next : env.bindingsAt env.next = [] :=
  bindingsAt_of_dead (Nat.le_refl env.depth)

theorem bindingsAt_pop {released : ScopeId} (hkept : scope.index < max released.index 1) :
    (env.pop released).bindingsAt scope = env.bindingsAt scope := by
  rw [bindingsAt, bindingsAt, getElem?_pop, if_pos hkept]

theorem ne_next (hlive : scope.index < env.depth) : scope ≠ env.next := by
  rintro rfl
  exact absurd hlive (Nat.lt_irrefl _)

theorem next_ne_global : env.next ≠ .global := by
  intro heq
  have hindex : env.depth = 0 := congrArg ScopeId.index heq
  have : 0 < env.depth := env.global_live
  omega

theorem rooted_empty : (empty : Environment V).Rooted := by
  refine ⟨rfl, fun {scope} hlocal hlive => ?_⟩
  have hindex : scope.index = 0 := Nat.lt_one_iff.mp hlive
  exact absurd (congrArg ScopeId.mk hindex) hlocal

/-- A scope goes astray if it is opened in one that is not live. -/
theorem RootedBut.push (h : env.RootedBut strays) (outer : ScopeId) :
    (env.push outer).RootedBut
      (if outer.index < env.depth then strays else env.next :: strays) := by
  constructor
  · rw [enclosing?_push, if_neg next_ne_global.symm]
    exact h.global
  · intro scope hlocal hscope hstray
    rw [depth_push] at hscope
    rw [enclosing?_push]
    split
    next heq =>
      by_cases hlive : outer.index < env.depth
      · refine ⟨outer, rfl, ?_⟩
        rw [heq]
        exact hlive
      · rw [if_neg hlive, heq] at hstray
        exact absurd List.mem_cons_self hstray
    next hother =>
      have hindex : scope.index ≠ env.depth := fun heq => hother (congrArg ScopeId.mk heq)
      apply h.lower hlocal (by omega)
      split at hstray
      · exact hstray
      · exact fun hmem => hstray (List.mem_cons_of_mem _ hmem)

/-- A scope that is opened in a live one leads outwards through it. -/
theorem Rooted.push (h : env.Rooted) (hlive : outer.index < env.depth) :
    (env.push outer).Rooted := by
  have hpushed := (rootedBut_nil_iff.mpr h).push outer
  rw [if_pos hlive] at hpushed
  exact rootedBut_nil_iff.mp hpushed

/-- What remains when a scope is released leads outwards as before, and what is released is
astray no more. -/
theorem RootedBut.pop (h : env.RootedBut strays) (released : ScopeId) :
    (env.pop released).RootedBut
      (strays.filter fun stray => stray.index < (env.pop released).depth) := by
  constructor
  · have hkept : ScopeId.global.index < max released.index 1 := Nat.le_max_right released.index 1
    rw [enclosing?_pop, if_pos hkept]
    exact h.global
  · intro scope hlocal hlive hstray
    have hscope := hlive
    rw [depth_pop, Nat.lt_min] at hscope
    rw [enclosing?_pop, if_pos hscope.1]
    refine h.lower hlocal hscope.2 fun hmem => hstray ?_
    exact List.mem_filter.mpr ⟨hmem, decide_eq_true hlive⟩

theorem Rooted.pop (h : env.Rooted) (released : ScopeId) : (env.pop released).Rooted :=
  rootedBut_nil_iff.mp ((rootedBut_nil_iff.mpr h).pop released)

/-! ## Binding names -/

theorem Rooted.define (h : env.Rooted) (bound : ScopeId) (name : String) (value : V) :
    (env.define bound name value).Rooted :=
  h.congr (depth_define env bound name value) (enclosing?_define bound name value)

theorem bindingsAt_define {bound : ScopeId} (hlive : bound.index < env.depth) (name : String)
    (value : V) (scope : ScopeId) :
    (env.define bound name value).bindingsAt scope =
      if bound = scope then (env.bindingsAt scope).bind name value else env.bindingsAt scope := by
  by_cases hsame : bound = scope
  · subst hsame
    obtain ⟨held, hheld⟩ : ∃ held, env.scopes[bound.index]? = some held :=
      ⟨_, Array.getElem?_eq_getElem hlive⟩
    rw [if_pos rfl, bindingsAt, bindingsAt, getElem?_define, if_pos rfl, hheld]
    rfl
  · have hindex : bound.index ≠ scope.index := fun heq => hsame (congrArg ScopeId.mk heq)
    rw [if_neg hsame, bindingsAt, bindingsAt, getElem?_define, if_neg hindex]

theorem bindingsAt_defineAll {bound : ScopeId} (hlive : bound.index < env.depth)
    (names : List String) (values : List V) (scope : ScopeId) :
    (env.defineAll bound names values).bindingsAt scope =
      if bound = scope then Bindings.bindAll names values (env.bindingsAt scope)
      else env.bindingsAt scope := by
  induction names generalizing env values with
  | nil =>
      rw [defineAll, Bindings.bindAll, ite_self]
      · intro _ _ _ _ h
        cases h
      · intro _ _ _ _ h
        cases h
  | cons name names ih =>
      cases values with
      | nil =>
          rw [defineAll, Bindings.bindAll, ite_self]
          · intro _ _ _ _ _ h
            cases h
          · intro _ _ _ _ _ h
            cases h
      | cons value values =>
          rw [defineAll, ih (by rw [depth_define]; exact hlive), bindingsAt_define hlive,
            Bindings.bindAll]
          split <;> rfl

/-- Binding a name where it is not in sight changes nothing that is. -/
theorem names_define_of_not_mem {bound : ScopeId} (hlive : bound.index < env.depth)
    (hlocal : bound ≠ .global) (hunseen : bound ∉ env.outward scope) (name : String) (value : V) :
    (env.define bound name value).names scope = env.names scope := by
  apply names_congr
  · intro lower _
    exact enclosing?_define bound name value lower
  · intro lower hlower
    rw [bindingsAt_define hlive, if_neg]
    rintro rfl
    rcases hlower with hglobal | hmem
    · exact hlocal hglobal
    · exact hunseen hmem

/-- Binding a name in a scope declares it there. -/
theorem names_define (h : env.Rooted) (hlive : scope.index < env.depth) (name : String)
    (value : V) : (env.define scope name value).names scope = (env.names scope).declare name value := by
  by_cases hlocal : scope = .global
  · subst hlocal
    rw [names_global, names_global, bindingsAt_define hlive, if_pos rfl]
    rfl
  · obtain ⟨outer, henclosing, hlower⟩ := h.lower hlocal hlive
    have hunseen : scope ∉ env.outward outer := by
      intro hmem
      have := (of_mem_outward hmem).2
      omega
    have hafter : (env.define scope name value).enclosing? scope = some (some outer) := by
      rw [enclosing?_define, henclosing]
    rw [names_cons hlocal hafter hlower, names_cons hlocal henclosing hlower, Names.declare_inner,
      names_define_of_not_mem hlive hlocal hunseen, bindingsAt_define hlive, if_pos rfl]

/-! ## Searches -/

/-- What a search from the scope comes to: the nearest binding of the name, which is the
one that an assignment overwrites, or that none is in sight. -/
inductive Answer (env : Environment V) (scope : ScopeId) (name : String) : Search V → Prop
  | found {bound : ScopeId} {held : V} :
      bound = .global ∨ bound ∈ env.outward scope → (env.names scope).find? name = some held →
      (∀ value, (env.names scope).assign name value =
        some ((env.define bound name value).names scope)) →
      Answer env scope name (.found bound held)
  | unbound :
      (env.names scope).find? name = none → (∀ value, (env.names scope).assign name value = none) →
      Answer env scope name .unbound

variable {name : String} {held : V} {result : Search V}

/-- A name that a scope binds is found there. -/
theorem answer_here (h : env.Rooted) (hlive : scope.index < env.depth)
    (hfind : (env.bindingsAt scope).find? name = some held) :
    env.Answer scope name (.found scope held) := by
  by_cases hlocal : scope = .global
  · subst hlocal
    refine .found (.inl rfl) ?_ fun value => ?_
    · rw [names_global]
      simp [Names.find?, hfind]
    · rw [names_define h hlive, names_global]
      simp [Names.assign, Names.assignIn, Names.declare, hfind]
  · obtain ⟨outer, houter, hlower⟩ := h.lower hlocal hlive
    have hnames := names_cons hlocal houter hlower
    refine .found (.inr ?_) ?_ fun value => ?_
    · rw [outward_cons hlocal houter hlower]
      exact List.mem_cons_self
    · rw [hnames, Names.find?_inner_of_some hfind]
    · rw [names_define h hlive, hnames, Names.assign_inner_of_some hfind, Names.declare_inner]

/-- A name that the global scope does not bind is not in sight from there. -/
theorem answer_global (hfind : (env.bindingsAt .global).find? name = none) :
    env.Answer .global name .unbound := by
  refine .unbound ?_ fun value => ?_
  · rw [names_global]
    simp [Names.find?, hfind]
  · rw [names_global]
    simp [Names.assign, Names.assignIn, hfind]

/-- A scope that does not bind the name answers what the scope around it does. -/
theorem Answer.inwards (h : env.Answer outer name result) (hlive : scope.index < env.depth)
    (hlocal : scope ≠ .global) (houter : env.enclosing? scope = some (some outer))
    (hlower : outer.index < scope.index) (hfind : (env.bindingsAt scope).find? name = none) :
    env.Answer scope name result := by
  have hnames := names_cons hlocal houter hlower
  cases h with
  | @found bound _ hseen hvalue hassign =>
      refine .found ?_ ?_ fun value => ?_
      · rw [outward_cons hlocal houter hlower]
        exact hseen.imp_right (List.mem_cons_of_mem _)
      · rw [hnames, Names.find?_inner_of_none hfind, hvalue]
      · have hbelow : bound.index ≤ outer.index := by
          rcases hseen with rfl | hmem
          · exact Nat.zero_le _
          · exact (of_mem_outward hmem).2
        have hother : bound ≠ scope := by
          rintro rfl
          omega
        have hbound : bound.index < env.depth := by omega
        have hafter : (env.define bound name value).enclosing? scope = some (some outer) := by
          rw [enclosing?_define, houter]
        rw [hnames, Names.assign_inner_of_none hfind, hassign, names_cons hlocal hafter hlower,
          bindingsAt_define hbound, if_neg hother]
        rfl
  | unbound hvalue hassign =>
      refine .unbound ?_ fun value => ?_
      · rw [hnames, Names.find?_inner_of_none hfind, hvalue]
      · rw [hnames, Names.assign_inner_of_none hfind, hassign]
        rfl

/-- A search that may visit every scope up to the one it starts from ends with an answer. -/
theorem searchWithin_answer (h : env.Rooted) (name : String) {visits : Nat}
    (hlive : scope.index < env.depth) (hvisits : scope.index < visits) :
    env.Answer scope name (env.searchWithin name visits scope) := by
  induction visits generalizing scope with
  | zero => omega
  | succ visits ih =>
      obtain ⟨here, hhere⟩ : ∃ here, env.scopes[scope.index]? = some here :=
        ⟨_, Array.getElem?_eq_getElem hlive⟩
      have hbindings : env.bindingsAt scope = here.bindings := by
        rw [bindingsAt, hhere]
        rfl
      have henclosed : env.enclosing? scope = some here.enclosing := by
        rw [enclosing?, hhere]
        rfl
      simp only [searchWithin, hhere]
      rw [← hbindings]
      cases hfind : (env.bindingsAt scope).find? name with
      | some held => exact answer_here h hlive hfind
      | none =>
          by_cases hlocal : scope = .global
          · subst hlocal
            have hnone : here.enclosing = none :=
              (Option.some.inj (h.global.symm.trans henclosed)).symm
            rw [hnone]
            exact answer_global hfind
          · obtain ⟨outer, houter, hlower⟩ := h.lower hlocal hlive
            have hsome : here.enclosing = some outer :=
              (Option.some.inj (houter.symm.trans henclosed)).symm
            rw [hsome]
            have hanswer := ih (Nat.lt_trans hlower hlive) (by omega)
            exact hanswer.inwards hlive hlocal houter hlower hfind

/-- A search from a live scope ends with an answer. -/
theorem search_answer (h : env.Rooted) (hlive : scope.index < env.depth) (name : String) :
    env.Answer scope name (env.search scope name) :=
  searchWithin_answer h name hlive (Nat.lt_succ_of_lt hlive)

/-- What a live scope itself binds is found there first. -/
theorem search_of_find? (hlive : scope.index < env.depth) {name : String} {value : V}
    (hfind : (env.bindingsAt scope).find? name = some value) :
    env.search scope name = .found scope value := by
  obtain ⟨held, hheld⟩ : ∃ held, env.scopes[scope.index]? = some held :=
    ⟨_, Array.getElem?_eq_getElem hlive⟩
  rw [bindingsAt, hheld] at hfind
  replace hfind : held.bindings.find? name = some value := hfind
  rw [search, searchWithin, hheld]
  dsimp only
  rw [hfind]

end Environment

/-! ## Names bound together -/

section

variable {V : Type} {names : List String} {values : List V} {name : String} {value : V}
  {bindings : Bindings V} {earlier later : List (String × V)}

theorem Bindings.find?_bindAll_of_ne (h : ∀ entry ∈ names.zip values, entry.1 ≠ name) :
    (bindAll names values bindings).find? name = bindings.find? name := by
  induction names generalizing values bindings with
  | nil => rfl
  | cons first names ih =>
      cases values with
      | nil => rfl
      | cons held values =>
          obtain ⟨hfirst, hothers⟩ := List.forall_mem_cons.mp h
          rw [bindAll, ih hothers, find?_bind_of_ne (Ne.symm hfirst)]

/-- A name has the last of the values that it is bound to. -/
theorem Bindings.find?_bindAll (h : names.zip values = earlier ++ (name, value) :: later)
    (hlast : ∀ entry ∈ later, entry.1 ≠ name) :
    (bindAll names values bindings).find? name = some value := by
  induction earlier generalizing names values bindings with
  | nil =>
      obtain _ | ⟨first, names⟩ := names
      · cases h
      obtain _ | ⟨held, values⟩ := values
      · cases h
      obtain ⟨hentry, rfl⟩ := List.cons.inj h
      obtain ⟨rfl, rfl⟩ := Prod.mk.inj hentry
      rw [bindAll, find?_bindAll_of_ne hlast, find?_bind_self]
  | cons entry earlier ih =>
      obtain _ | ⟨first, names⟩ := names
      · cases h
      obtain _ | ⟨held, values⟩ := values
      · cases h
      rw [bindAll]
      exact ih (List.cons.inj h).2

end

/-! ## Values in sight -/

theorem Bindings.of_mem_bindAll {V : Type} {names : List String} {values : List V}
    {bindings : Bindings V} {entry : String × V} (h : entry ∈ bindAll names values bindings) :
    entry ∈ bindings ∨ entry.2 ∈ values := by
  induction names generalizing values bindings with
  | nil => exact .inl h
  | cons name names ih =>
      cases values with
      | nil => exact .inl h
      | cons value values =>
          rcases ih h with hbound | hlater
          · rcases mem_of_mem_bind hbound with hbefore | heq
            · exact .inl hbefore
            · exact .inr (heq ▸ List.mem_cons_self)
          · exact .inr (List.mem_cons_of_mem _ hlater)

namespace Names

variable {V : Type} {names after : Names V} {name : String} {value held : V}
  {bindings : Bindings V}

/-- Some map in sight binds a name to the value. -/
def Stores (names : Names V) (value : V) : Prop :=
  ∃ bindings ∈ names.globals :: names.locals, ∃ name, (name, value) ∈ bindings

theorem Stores.of_find? (h : names.find? name = some value) : names.Stores value := by
  obtain ⟨bindings, hbindings, hfind⟩ := List.exists_of_findSome?_eq_some h
  refine ⟨bindings, ?_, name, Bindings.mem_of_find? hfind⟩
  rcases List.mem_append.mp hbindings with hlocal | hglobal
  · exact List.mem_cons_of_mem _ hlocal
  · rw [List.mem_singleton.mp hglobal]
    exact List.mem_cons_self

theorem Stores.of_inner (h : (names.inner bindings).Stores value) :
    names.Stores value ∨ ∃ name, (name, value) ∈ bindings := by
  obtain ⟨other, hother, bound⟩ := h
  rcases List.mem_cons.mp hother with rfl | hlocal
  · exact .inl ⟨_, List.mem_cons_self, bound⟩
  · rcases List.mem_cons.mp hlocal with rfl | hlocal
    · exact .inr bound
    · exact .inl ⟨other, List.mem_cons_of_mem _ hlocal, bound⟩

theorem Stores.of_outer (h : names.outer.Stores value) : names.Stores value := by
  obtain ⟨other, hother, bound⟩ := h
  refine ⟨other, ?_, bound⟩
  rcases List.mem_cons.mp hother with rfl | hlocal
  · exact List.mem_cons_self
  · exact List.mem_cons_of_mem _ (List.mem_of_mem_tail hlocal)

theorem Stores.of_declare (h : (names.declare name held).Stores value) :
    names.Stores value ∨ value = held := by
  obtain ⟨locals, globals⟩ := names
  obtain ⟨other, hother, bound, hbound⟩ := h
  cases locals with
  | nil =>
      obtain rfl : other = globals.bind name held := by simpa [declare] using hother
      exact (Bindings.mem_of_mem_bind hbound).imp_left fun h => ⟨globals, by simp, bound, h⟩
  | cons first others =>
      rcases (by simpa [declare] using hother : other = globals ∨ other = first.bind name held ∨
        other ∈ others) with rfl | rfl | hlocal
      · exact .inl ⟨other, by simp, bound, hbound⟩
      · exact (Bindings.mem_of_mem_bind hbound).imp_left fun h => ⟨first, by simp, bound, h⟩
      · exact .inl ⟨other, by simp [hlocal], bound, hbound⟩

/-- Assigning binds the name anew in one map and leaves the others. -/
theorem mem_of_assignIn {locals changed : List (Bindings V)}
    (h : assignIn name held locals = some changed) (hmem : bindings ∈ changed) :
    bindings ∈ locals ∨ ∃ before ∈ locals, bindings = before.bind name held := by
  induction locals generalizing changed with
  | nil => cases h
  | cons first others ih =>
      rw [assignIn] at h
      split at h
      · cases h
        rcases List.mem_cons.mp hmem with rfl | hother
        · exact .inr ⟨first, List.mem_cons_self, rfl⟩
        · exact .inl (List.mem_cons_of_mem _ hother)
      · obtain ⟨rest, hrest, rfl⟩ := Option.map_eq_some_iff.mp h
        rcases List.mem_cons.mp hmem with rfl | hother
        · exact .inl List.mem_cons_self
        · rcases ih hrest hother with hbefore | ⟨before, hbefore, heq⟩
          · exact .inl (List.mem_cons_of_mem _ hbefore)
          · exact .inr ⟨before, List.mem_cons_of_mem _ hbefore, heq⟩

theorem Stores.of_assign (hassign : names.assign name held = some after)
    (h : after.Stores value) : names.Stores value ∨ value = held := by
  obtain ⟨bindings, hbindings, bound, hbound⟩ := h
  have hbefore : bindings ∈ names.globals :: names.locals ∨
      ∃ before ∈ names.globals :: names.locals, bindings = before.bind name held := by
    rw [assign] at hassign
    split at hassign
    next locals hlocals =>
      cases hassign
      rcases List.mem_cons.mp hbindings with rfl | hlocal
      · exact .inl List.mem_cons_self
      · rcases mem_of_assignIn hlocals hlocal with hsame | ⟨before, hmem, heq⟩
        · exact .inl (List.mem_cons_of_mem _ hsame)
        · exact .inr ⟨before, List.mem_cons_of_mem _ hmem, heq⟩
    next =>
      split at hassign
      · cases hassign
        rcases List.mem_cons.mp hbindings with rfl | hlocal
        · exact .inr ⟨names.globals, List.mem_cons_self, rfl⟩
        · exact .inl (List.mem_cons_of_mem _ hlocal)
      · cases hassign
  rcases hbefore with hsame | ⟨before, hmem, rfl⟩
  · exact .inl ⟨bindings, hsame, bound, hbound⟩
  · exact (Bindings.mem_of_mem_bind hbound).imp_left fun h => ⟨before, hmem, bound, h⟩

end Names

namespace Environment

variable {V : Type} {env : Environment V} {scope : ScopeId} {value : V}

/-- What is in sight from a scope is stored. -/
theorem Stores.of_names (h : (env.names scope).Stores value) : env.Stores value := by
  obtain ⟨bindings, hbindings, name, hmem⟩ := h
  obtain ⟨seen, rfl⟩ : ∃ seen, bindings = env.bindingsAt seen := by
    rcases List.mem_cons.mp hbindings with rfl | hlocal
    · exact ⟨.global, rfl⟩
    · obtain ⟨seen, -, rfl⟩ := List.mem_map.mp hlocal
      exact ⟨seen, rfl⟩
  rw [bindingsAt] at hmem
  cases hheld : env.scopes[seen.index]? with
  | none =>
      rw [hheld] at hmem
      cases hmem
  | some held =>
      rw [hheld] at hmem
      exact ⟨seen.index, held, name, hheld, hmem⟩

end Environment

end LoxLang
