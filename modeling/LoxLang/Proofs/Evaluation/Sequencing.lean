/-
# Programs one after the other

If a program ends normally, then executing its statements and after them those of another
program is executing the other on the machine that the first leaves.

No program ends before its last statement but for a fault. This goes by its text alone:
outside of functions there is no return, and what a function returns ends no more than
the call.
-/

import LoxLang.Proofs.Evaluation.Invariance
import LoxLang.Proofs.Evaluation.Output
import LoxLang.Proofs.Grammar.Regularity

namespace LoxLang

/-! ## Results -/

namespace Action

variable {α β : Type} {P : α → Prop} {Q : β → Prop} {machine after : Machine}

/-- Every result that the action has is as told. -/
def Gives (P : α → Prop) (action : Action α) : Prop :=
  ∀ ⦃machine after : Machine⦄ ⦃result : α⦄, action machine = (.value result, after) → P result

/-- An action that has a result has one of each part. -/
theorem of_bind_eq {first : Action α} {next : α → Action β} {result : β}
    (h : (first >>= next) machine = (.value result, after)) :
    ∃ value middle, first machine = (.value value, middle) ∧
      next value middle = (.value result, after) := by
  replace h : Action.bind first next machine = _ := h
  rw [Action.bind] at h
  rcases heq : first machine with ⟨value | cause | _, middle⟩
  · rw [heq] at h
    exact ⟨value, middle, rfl, h⟩
  · rw [heq] at h
    cases h
  · rw [heq] at h
    cases h

theorem gives_pure {result : α} (h : P result) : Gives P (pure result) := by
  intro machine after value heq
  cases heq
  exact h

theorem Gives.bind {first : Action α} {next : α → Action β} (h : Gives P first)
    (hnext : ∀ value, P value → Gives Q (next value)) : Gives Q (first >>= next) := by
  intro machine after result heq
  obtain ⟨value, middle, hfirst, hresult⟩ := of_bind_eq heq
  exact hnext value (h hfirst) hresult

theorem gives_bind {first : Action α} {next : α → Action β} (h : ∀ value, Gives Q (next value)) :
    Gives Q (first >>= next) := by
  intro machine after result heq
  obtain ⟨value, middle, _, hresult⟩ := of_bind_eq heq
  exact h value hresult

theorem Gives.inBlock {action : Action α} (h : Gives P action) : Gives P (inBlock action) := by
  intro machine after result heq
  replace heq : inScope machine.current [] [] action machine = _ := heq
  rw [inScope_apply] at heq
  exact h (Prod.ext (Prod.mk.inj heq).1 rfl)

end Action

namespace Eval

open LoxLang.Action

variable {limit : Option Nat} {fuel : Nat} {machine middle after : Machine}

/-! ## Programs end with their last statement -/

/-- Outside of functions no statement ends with a return. -/
theorem gives_normal (limit : Option Nat) (fuel : Nat) :
    (∀ {node : Stmt}, node.Regular false → Gives (· = .normal) (statement limit fuel node)) ∧
    ∀ {nodes : List Stmt}, (∀ node ∈ nodes, node.Regular false) →
      Gives (· = .normal) (body limit fuel nodes) := by
  have hnormal : Gives (· = Flow.normal) (Pure.pure .normal) := gives_pure rfl
  induction fuel with
  | zero =>
      constructor
      · intro node _ machine after flow heq
        rw [statement] at heq
        cases heq
      · intro nodes _ machine after flow heq
        rw [body] at heq
        cases heq
  | succ fuel ih =>
      obtain ⟨hstatement, hbody⟩ := ih
      constructor
      · intro node hnode
        rw [statement.eq_def]
        cases hnode with
        | expression => exact gives_bind fun _ => hnormal
        | print => exact gives_bind fun _ => gives_bind fun _ => hnormal
        | @var _ name initial _ =>
            show Gives _ (statement limit (fuel + 1) (.var name initial))
            rw [statement_var]
            exact gives_bind fun _ => gives_bind fun _ => hnormal
        | block hnodes => exact (hbody hnodes).inBlock
        | @branch _ _ _ alternative _ hconsequent halternative =>
            apply gives_bind
            intro value
            split
            · exact hstatement hconsequent
            · cases alternative with
              | none => exact hnormal
              | some alternative => exact hstatement (halternative alternative rfl)
        | loop hcondition hrepeated =>
            apply gives_bind
            intro value
            split
            · refine (hstatement hrepeated).bind ?_
              rintro flow rfl
              exact hstatement (.loop hcondition hrepeated)
            · exact hnormal
        | function => exact gives_bind fun _ => gives_bind fun _ => hnormal
      · intro nodes hnodes
        cases nodes with
        | nil =>
            rw [body]
            exact hnormal
        | cons first others =>
            obtain ⟨hfirst, hothers⟩ := List.forall_mem_cons.mp hnodes
            rw [body]
            refine (hstatement hfirst).bind ?_
            rintro flow rfl
            exact hbody hothers

/-! ## Statements in sequence -/

/-- After statements that end normally the others are executed, with a unit of fuel less
for each statement before them. -/
theorem body_append {first : List Stmt} (second : List Stmt)
    (h : body limit fuel first machine = (.value .normal, middle)) {more : Nat}
    (hle : fuel ≤ more) :
    body limit more (first ++ second) machine =
      body limit (more - first.length) second middle := by
  induction first generalizing fuel more machine with
  | nil =>
      cases fuel with
      | zero =>
          rw [body] at h
          cases h
      | succ fuel =>
          rw [body] at h
          cases h
          rfl
  | cons node others ih =>
      cases fuel with
      | zero =>
          rw [body] at h
          cases h
      | succ fuel =>
          obtain ⟨more, rfl⟩ :=
            Nat.exists_eq_add_of_le' (Nat.lt_of_lt_of_le (Nat.succ_pos fuel) hle)
          rw [body] at h
          obtain ⟨flow, reached, hnode, hothers⟩ := of_bind_eq h
          cases flow with
          | returned value => cases hothers
          | normal =>
              have hagain := statement_of_le hnode (by simp) (Nat.le_of_succ_le_succ hle)
              rw [List.cons_append, body]
              show Action.bind _ _ machine = _
              rw [Action.bind, hagain]
              show body limit more (others ++ second) reached = _
              rw [ih hothers (Nat.le_of_succ_le_succ hle), List.length_cons,
                Nat.add_sub_add_right]

/-- A program and after it another on the machine that it leaves are one program. The flush
between them makes no difference to an output that works. -/
theorem program_append {first : Program} (second : Program)
    (hfirst : ∀ node ∈ first, node.Regular false) (hworks : machine.output.Works)
    (h : program limit fuel first machine = (.value (), middle)) {more : Nat} (hle : fuel ≤ more) :
    program limit more (first ++ second) machine =
      program limit (more - first.length) second middle := by
  rw [program] at h
  obtain ⟨flow, reached, hbody, hflush⟩ := of_bind_eq h
  obtain rfl : flow = .normal := (gives_normal limit fuel).2 hfirst hbody
  have hgrows := grows_body limit fuel first machine
  rw [hbody] at hgrows
  have hflushed : Action.flush reached = (.value (), reached) := by
    rw [Action.flush, request, (hworks.grows hgrows).flush]
  obtain rfl : reached = middle := (Prod.mk.inj (hflushed.symm.trans hflush)).2
  rw [program, program]
  show Action.bind _ _ machine = Action.bind _ _ reached
  rw [Action.bind, Action.bind, body_append second hbody hle]

end Eval

end LoxLang
