/-
# Approximation

Evaluation runs on fuel, and two evaluations that do the same may not take the same fuel. An
action is approximated by another if that one ends whenever it does, and in the same way.
What is put together from approximated actions is approximated, and more fuel is one way to
come by an approximation.

The order of statements is told by one combinator: the next is executed unless the first
returns.
-/

import LoxLang.Proofs.Evaluation.Refinement
import LoxLang.Proofs.Evaluation.Sequencing

namespace LoxLang

namespace Action

open Machine

variable {α β γ : Type} {P : α → Prop}

/-- Whenever the first action ends, the second does, and in the same way. -/
def Approximates (first second : Action α) : Prop :=
  ∀ ⦃machine : Machine⦄, machine.Standing → (first machine).1 ≠ .outOfFuel →
    second machine = first machine

theorem approximates_of_eq {first second : Action α}
    (h : ∀ machine : Machine, machine.Standing → second machine = first machine) :
    first.Approximates second :=
  fun machine hm _ => h machine hm

theorem approximates_refl (action : Action α) : action.Approximates action :=
  approximates_of_eq fun _ _ => rfl

theorem approximates_outOfFuel (action : Action α) : Approximates outOfFuel action :=
  fun _ _ hends => absurd rfl hends

theorem Approximates.ends {first second : Action α} (h : first.Approximates second)
    {machine after : Machine} {result : Except Fault α} (hm : machine.Standing)
    (heq : first machine = (.ofResult result, after)) :
    second machine = (.ofResult result, after) := by
  have hends : (first machine).1 ≠ .outOfFuel := by
    rw [heq]
    cases result <;> nofun
  rw [h hm hends, heq]

theorem Approximates.trans {first second third : Action α} (h : first.Approximates second)
    (hlater : second.Approximates third) : first.Approximates third := by
  intro machine hm hends
  have heq := h hm hends
  rw [← heq] at hends ⊢
  exact hlater hm hends

theorem Approximates.bind {first second : Action α} {next later : α → Action β} {phase : Phase}
    (h : first.Approximates second) (hkeeps : framing.Keeps phase P first)
    (hnext : ∀ result, (next result).Approximates (later result)) :
    (first >>= next).Approximates (second >>= later) := by
  intro machine hm hends
  have hafter := (hkeeps machine hm).1
  have heq := h hm
  show Action.bind second later machine = Action.bind first next machine
  replace hends : (Action.bind first next machine).1 ≠ .outOfFuel := hends
  rw [Action.bind] at hends
  rw [Action.bind, Action.bind]
  revert hafter heq hends
  rcases first machine with ⟨result | cause | _, after⟩
  · intro hafter heq hends
    rw [heq (by simp)]
    exact hnext result hafter hends
  · intro _ heq _
    rw [heq (by simp)]
  · intro _ _ hends
    exact absurd rfl hends

theorem Approximates.ite {condition : Prop} [Decidable condition]
    {first second third fourth : Action α}
    (h : first.Approximates second) (hother : third.Approximates fourth) :
    (if condition then first else third).Approximates (if condition then second else fourth) := by
  split
  · exact h
  · exact hother

theorem Approximates.inBlock {first second : Action α} (h : first.Approximates second) :
    (Action.inBlock first).Approximates (Action.inBlock second) := by
  intro machine hm hends
  have hentered : (machine.enter machine.current [] []).Standing :=
    hm.enter hm.wellFormed.current_live (List.forall_mem_nil _)
  have heq := h hentered hends
  show inScope machine.current [] [] second machine = inScope machine.current [] [] first machine
  rw [inScope_apply, inScope_apply, heq]

/-- Go on with the next action unless the first returns. -/
def followedBy (first next : Action Flow) : Action Flow := do
  match ← first with
  | .normal => next
  | .returned value => Pure.pure (.returned value)

theorem Approximates.followedBy {first second next later : Action Flow} {phase : Phase}
    (h : first.Approximates second) (hkeeps : framing.Keeps phase framing.FitFlow first)
    (hnext : next.Approximates later) :
    (first.followedBy next).Approximates (second.followedBy later) := by
  apply h.bind hkeeps
  intro flow
  cases flow with
  | normal => exact hnext
  | returned value => exact approximates_refl _

theorem followedBy_normal (action : Action Flow) :
    action.followedBy (Pure.pure .normal) = action := by
  funext machine
  show Action.bind action _ machine = action machine
  rw [Action.bind]
  rcases action machine with ⟨(_ | _) | _ | _, after⟩ <;> rfl

theorem bind_bind (first : Action α) (next : α → Action β) (later : β → Action γ) :
    first >>= next >>= later = first >>= fun result => next result >>= later := by
  funext machine
  show Action.bind (Action.bind first next) later machine = Action.bind first _ machine
  rw [Action.bind, Action.bind, Action.bind]
  rcases first machine with ⟨_ | _ | _, after⟩ <;> rfl

theorem followedBy_bind (action : Action Flow) (between : Action α) (next : Action Flow) :
    (action.followedBy (between >>= fun _ => Pure.pure .normal)).followedBy next =
      action.followedBy (between >>= fun _ => next) := by
  rw [followedBy, followedBy, followedBy, bind_bind]
  congr 1
  funext flow
  cases flow with
  | normal => exact bind_bind between _ _
  | returned value => rfl

end Action

namespace Eval

open LoxLang.Action Machine

variable {limit : Option Nat} {fuel more : Nat}

/-! ## More fuel -/

theorem expression_approximates (node : Expr) (hle : fuel ≤ more) :
    (expression limit fuel node).Approximates (expression limit more node) := by
  intro machine _ hends
  rcases heq : expression limit fuel node machine with ⟨exit, after⟩
  rw [heq] at hends
  exact expression_of_le heq hends hle

theorem statement_approximates (node : Stmt) (hle : fuel ≤ more) :
    (statement limit fuel node).Approximates (statement limit more node) := by
  intro machine _ hends
  rcases heq : statement limit fuel node machine with ⟨exit, after⟩
  rw [heq] at hends
  exact statement_of_le heq hends hle

/-! ## Statements in a list -/

theorem body_cons (first : Stmt) (others : List Stmt) :
    body limit (fuel + 1) (first :: others) =
      (statement limit fuel first).followedBy (body limit fuel others) := by
  rw [body]
  rfl

theorem body_singleton_approximates (node : Stmt) :
    (body limit fuel [node]).Approximates (statement limit fuel node) := by
  cases fuel with
  | zero =>
      rw [body]
      exact approximates_outOfFuel _
  | succ fuel =>
      have hkeeps := (framing.kept limit fuel).statement node
      have hends : (body limit fuel []).Approximates (Pure.pure .normal) := by
        cases fuel with
        | zero =>
            rw [body]
            exact approximates_outOfFuel _
        | succ fuel =>
            rw [body]
            exact approximates_refl _
      rw [body_cons, ← followedBy_normal (statement limit (fuel + 1) node)]
      exact (statement_approximates node (Nat.le_succ fuel)).followedBy hkeeps hends

theorem approximates_body_singleton (node : Stmt) :
    (statement limit fuel node).Approximates (body limit (fuel + 1) [node]) := by
  cases fuel with
  | zero =>
      rw [statement]
      exact approximates_outOfFuel _
  | succ fuel =>
      rw [body_cons, body, followedBy_normal]
      exact approximates_refl _

theorem body_pair_approximates (first second : Stmt) :
    (body limit fuel [first, second]).Approximates
      ((statement limit fuel first).followedBy (statement limit fuel second)) := by
  cases fuel with
  | zero =>
      rw [body]
      exact approximates_outOfFuel _
  | succ fuel =>
      have hsecond : (body limit fuel [second]).Approximates (statement limit (fuel + 1) second) :=
        (body_singleton_approximates second).trans
          (statement_approximates second (Nat.le_succ fuel))
      rw [body_cons]
      exact (statement_approximates first (Nat.le_succ fuel)).followedBy
        ((framing.kept limit fuel).statement first) hsecond

theorem approximates_body_pair (first second : Stmt) :
    ((statement limit fuel first).followedBy (statement limit fuel second)).Approximates
      (body limit (fuel + 2) [first, second]) := by
  rw [body_cons]
  exact (statement_approximates first (Nat.le_succ fuel)).followedBy
    ((framing.kept limit fuel).statement first) (approximates_body_singleton second)

end Eval

end LoxLang
