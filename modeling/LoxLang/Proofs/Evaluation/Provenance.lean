/-
# Where functions come from

No function comes from nowhere. What a task stores, passes on or results in was stored
before, was passed to the task, or is one of the functions that are made during it. Of one
task this is known from its account; for a whole evaluation it follows by induction on the
fuel, and by induction on its parts in order.

The identities of the functions that are made are consecutive, from the one that is next at
the start.
-/

import LoxLang.Proofs.Evaluation.Accounts

namespace LoxLang.Eval

/-! ## A whole evaluation -/

/-- The functions have consecutive identities, from the given one. -/
def Numbered (first : Identity) (functions : List Function) : Prop :=
  functions.map Function.identity = List.range' first functions.length

variable {first : Identity} {functions others : List Function}

theorem Numbered.append (h : Numbered first functions)
    (hothers : Numbered (first + functions.length) others) :
    Numbered first (functions ++ others) := by
  rw [Numbered] at *
  rw [List.map_append, h, hothers, List.length_append, List.range'_append_1]

theorem Numbered.identity {index : Nat} {function : Function} (h : Numbered first functions)
    (hfunction : functions[index]? = some function) : function.identity = first + index := by
  have hindex : (functions.map Function.identity)[index]? = some function.identity := by
    rw [List.getElem?_map, hfunction, Option.map_some]
  rw [h, List.getElem?_range'] at hindex
  · rw [← Option.some.inj hindex, Nat.one_mul]
  · exact (List.getElem?_eq_some_iff.mp hfunction).1

theorem numbered_own (task : Task) (machine : Machine) :
    Numbered machine.supply (task.own machine) := by
  rw [Task.own.eq_def]
  split <;> rfl

namespace Account

variable {limit : Option Nat} {fuel left : Nat} {task part : Task} {machine start : Machine}
  {account middle last other : Account} {parts : List (Task × Machine)} {function : Callable}
  {functions others : List Function}

theorem extend_append : account.extend (functions ++ others) =
    (account.extend functions).extend others := by
  simp only [extend, List.length_append, Nat.add_assoc, List.mem_append, or_and_right, exists_or,
    or_assoc]

theorem Within.extend (h : account.Within other) (functions : List Function) :
    (account.extend functions).Within (other.extend functions) :=
  ⟨congrArg (· + functions.length) h.supply, Or.imp_left h.known⟩

theorem Within.trans (h : account.Within middle) (hother : middle.Within other) :
    account.Within other :=
  ⟨h.supply.trans hother.supply, fun hknown => hother.known (h.known hknown)⟩

/-- The functions that are made during a task account for all that comes of it. -/
structure Explained (limit : Option Nat) (fuel : Nat) (account : Account) (task : Task)
    (machine : Machine) : Prop where
  numbered : Numbered account.supply (made limit fuel task machine)
  covers : (account.extend (made limit fuel task machine)).Covers (task.last limit fuel machine)
  answers {function : Callable} : .callable function ∈ task.answers limit fuel machine →
    (account.extend (made limit fuel task machine)).known function

/-- All tasks with the fuel are explained by any account that covers them. -/
def ExplainsAll (limit : Option Nat) (fuel : Nat) : Prop :=
  ∀ {account : Account} {task : Task} {machine : Machine}, account.Covers machine →
    (∀ {function : Callable}, task.Passes function → account.known function) →
    account.Explained limit fuel task machine

theorem Explained.after (h : account.Explained limit fuel task machine) :
    (account.after limit fuel task machine).Within
      (account.extend (made limit fuel task machine)) where
  supply := h.covers.supply
  known hknown := by
    rcases hknown with hold | hstores | hmem
    · exact .inl hold
    · exact h.covers.stored hstores
    · exact h.answers hmem

/-- The functions that are made during parts, one after the other. -/
def madeBy (limit : Option Nat) (fuel : Nat) (parts : List (Task × Machine)) : List Function :=
  parts.flatMap fun (part, start) => made limit fuel part start

theorem made_succ : made limit (fuel + 1) task machine =
    task.own machine ++ madeBy limit fuel (task.parts limit fuel machine) :=
  rfl

theorem madeBy_cons : madeBy limit fuel ((part, start) :: parts) =
    made limit fuel part start ++ madeBy limit fuel parts :=
  rfl

theorem Chain.explained (hall : ExplainsAll limit fuel) (h : Chain limit fuel account parts last) :
    Numbered account.supply (madeBy limit fuel parts) ∧
      last.Within (account.extend (madeBy limit fuel parts)) := by
  induction h with
  | @nil account =>
      rw [show madeBy limit fuel [] = [] from rfl, extend_nil]
      exact ⟨rfl, rfl, id⟩
  | @cons account last part start parts hcovers hpasses _ ih =>
      obtain ⟨hnumbered, hwithin⟩ := ih
      have hpart := hall hcovers hpasses
      rw [madeBy_cons, extend_append]
      rw [hpart.after.supply] at hnumbered
      exact ⟨hpart.numbered.append hnumbered, hwithin.trans (hpart.after.extend _)⟩

/-- Every part of a chain is started on a machine that is covered, and what it adds to the
account is among what all of the parts add. -/
theorem Chain.covers_of_mem (hall : ExplainsAll limit fuel)
    (h : Chain limit fuel account parts last) (hmem : (part, start) ∈ parts) :
    ∃ middle : Account, middle.Covers start ∧
      (∀ {function}, part.Passes function → middle.known function) ∧
      ∀ {function}, (middle.extend (made limit fuel part start)).known function →
        (account.extend (madeBy limit fuel parts)).known function := by
  induction h with
  | nil => cases hmem
  | @cons account last head begun parts hcovers hpasses _ ih =>
      rw [madeBy_cons, extend_append]
      rcases List.mem_cons.mp hmem with heq | hmem
      · cases heq
        exact ⟨account, hcovers, hpasses, .inl⟩
      · obtain ⟨middle, hmiddle, hgiven, hknown⟩ := ih hmem
        have hafter := (hall hcovers hpasses).after.extend (madeBy limit fuel parts)
        exact ⟨middle, hmiddle, hgiven, fun h => hafter.known (hknown h)⟩

/-- Without fuel nothing is done. -/
theorem last_zero (limit : Option Nat) (task : Task) (machine : Machine) :
    task.last limit 0 machine = machine ∧ task.answers limit 0 machine = [] := by
  cases task with
  | expression node =>
      rw [Task.last, Task.answers, Eval.expression]
      exact ⟨rfl, rfl⟩
  | each nodes =>
      rw [Task.last, Task.answers, Eval.each]
      exact ⟨rfl, rfl⟩
  | call function values =>
      rw [Task.last, Task.answers, Eval.call]
      exact ⟨rfl, rfl⟩
  | statement node =>
      rw [Task.last, Task.answers, Eval.statement]
      exact ⟨rfl, rfl⟩
  | body nodes =>
      rw [Task.last, Task.answers, Eval.body]
      exact ⟨rfl, rfl⟩

/-- Evaluation is accounted for by the functions that are made during it. -/
theorem explained (limit : Option Nat) (fuel : Nat) : ExplainsAll limit fuel := by
  induction fuel with
  | zero =>
      intro account task machine hcovers hpasses
      obtain ⟨hlast, hanswers⟩ := last_zero limit task machine
      refine ⟨rfl, ?_, fun hmem => ?_⟩
      · rw [hlast, made, extend_nil]
        exact hcovers
      · rw [hanswers] at hmem
        cases hmem
  | succ fuel ih =>
      intro account task machine hcovers hpasses
      obtain ⟨last, hchain, hlast, hvalues⟩ := hcovers.task_succ hpasses
      obtain ⟨hnumbered, hwithin⟩ := hchain.explained ih
      rw [← extend_append, ← made_succ] at hwithin
      have hown : Numbered account.supply (task.own machine) := by
        rw [← hcovers.supply]
        exact numbered_own task machine
      refine ⟨?_, ⟨?_, ?_⟩, ?_⟩
      · rw [made_succ]
        exact hown.append hnumbered
      · rw [← hwithin.supply]
        exact hlast.supply
      · exact fun hstores => hwithin.known (hlast.stored hstores)
      · exact fun hmem => hwithin.known (hvalues hmem)

/-- So is every part of an evaluation, from an account of its own that knows no more. -/
theorem covers_of_during (h : During limit fuel task machine left part start)
    (hcovers : account.Covers machine)
    (hpasses : ∀ {function}, task.Passes function → account.known function) :
    ∃ middle : Account, middle.Covers start ∧
      (∀ {function}, part.Passes function → middle.known function) ∧
      ∀ {function}, (middle.extend (made limit left part start)).known function →
        (account.extend (made limit fuel task machine)).known function := by
  induction h with
  | self => exact ⟨account, hcovers, hpasses, id⟩
  | part _ hstarts ih =>
      obtain ⟨middle, hmiddle, hgiven, hknown⟩ := ih hcovers hpasses
      obtain ⟨last, hchain, -, -⟩ := hmiddle.task_succ hgiven
      obtain ⟨inner, hinner, hpassed, hless⟩ :=
        hchain.covers_of_mem (explained limit _) (mem_parts_iff.mpr hstarts)
      refine ⟨inner, hinner, hpassed, fun h => hknown ?_⟩
      rw [made_succ, extend_append]
      exact hless h

end Account

/-! ## What occurs -/

/-- The callable occurs during the task: a part of it is given the callable, starts or ends on
a machine that stores it, or results in it. -/
def Occurs (limit : Option Nat) (fuel : Nat) (task : Task) (machine : Machine)
    (function : Callable) : Prop :=
  ∃ left part start, During limit fuel task machine left part start ∧
    (part.Passes function ∨ start.Stores function ∨ (part.last limit left start).Stores function ∨
      .callable function ∈ part.answers limit left start)

/-- What occurs during a task was known before, or is made during it. -/
theorem Account.Covers.occurs {limit : Option Nat} {fuel : Nat} {account : Account} {task : Task}
    {machine : Machine} {function : Callable} (h : account.Covers machine)
    (hpasses : ∀ {function}, task.Passes function → account.known function)
    (hoccurs : Occurs limit fuel task machine function) :
    (account.extend (made limit fuel task machine)).known function := by
  obtain ⟨left, part, start, hduring, hoccurs⟩ := hoccurs
  obtain ⟨middle, hcovers, hgiven, hknown⟩ := Account.covers_of_during hduring h hpasses
  apply hknown
  have hexplained := Account.explained limit left hcovers hgiven
  rcases hoccurs with hpassed | hstored | hstores | hanswer
  · exact .inl (hgiven hpassed)
  · exact .inl (hcovers.stored hstored)
  · exact hexplained.covers.stored hstores
  · exact hexplained.answers hanswer

end LoxLang.Eval
