/-
# What makes no difference to evaluation

An evaluation that ends does so with more fuel as well, and in the same way. And what it
does goes by no line: if everything that is evaluated is on other lines, and everything
that is stored, then so is what it comes to, and it is the same in all else.
-/

import LoxLang.Proofs.Evaluation.Comparison

namespace LoxLang

namespace Comparison

variable {α : Type} {first second : Action α} {machine after : Machine} {exit : Exit Fault α}

/-- An evaluation compared to the same one with so much more fuel. -/
def refuelling (spare : Nat) : Comparison where
  line := id
  spare := spare
  InStep := Eq
  CutOff cause _ _ := cause = none
  Leads _ _ _ := True
  refl _ := trivial
  trans _ _ := trivial
  written _ _ := trivial
  flushed _ := trivial
  cutOff_leads hcause _ := hcause
  lines := by
    rintro first _ text rfl
    exact .inl ⟨rfl, rfl⟩
  flushes := by
    rintro first _ rfl
    exact ⟨rfl, rfl⟩
  spared := .inr ⟨fun _ _ => rfl, fun _ _ _ => trivial⟩

/-- An evaluation on other lines compared to one on those that are known. -/
def renumbering (line : Nat → Nat) : Comparison where
  line := line
  spare := 0
  InStep := Eq
  CutOff _ _ _ := False
  Leads _ _ _ := True
  refl _ := trivial
  trans _ _ := trivial
  written _ _ := trivial
  flushed _ := trivial
  cutOff_leads := False.elim
  lines := by
    rintro first _ text rfl
    exact .inl ⟨rfl, rfl⟩
  flushes := by
    rintro first _ rfl
    exact ⟨rfl, rfl⟩
  spared := .inl rfl

theorem Follows.eq_of_refuelling {spare : Nat} {f : α → α} (hf : f = id)
    (h : (refuelling spare).Follows f first second) (heq : first machine = (exit, after))
    (hexit : exit ≠ .outOfFuel) : second machine = (exit, after) := by
  subst hf
  have hstep : (refuelling spare).InStep machine.output machine.output := rfl
  have hends := h.ends hstep
  rw [image_of_line rfl] at hends
  replace hends : (refuelling spare).Ends id (first machine) (second machine) := hends
  generalize first machine = reached at heq hends
  generalize second machine = other at hends
  cases hends with
  | inStep exit hafter =>
      cases hafter
      rw [← heq, image_of_line rfl]
      exact congrArg (·, _) exit.map_renumber_id.symm
  | cutOff cause hcause =>
      cases hcause
      cases heq
      exact absurd rfl hexit

theorem Follows.eq_of_renumbering {line : Nat → Nat} {β : Type} {f : α → β} {first : Action β}
    (h : (renumbering line).Follows f first second) (machine : Machine) :
    first (machine.renumber line) =
      ((second machine).1.map (Fault.renumber line) f, (second machine).2.renumber line) := by
  have hstep : (renumbering line).InStep machine.output machine.output := rfl
  have hends := h.ends hstep
  replace hends :
      (renumbering line).Ends f (first (machine.renumber line)) (second machine) := hends
  generalize first (machine.renumber line) = reached at hends
  generalize second machine = other at hends
  cases hends with
  | inStep exit hafter =>
      cases hafter
      rfl
  | cutOff cause hcut => exact hcut.elim

end Comparison

namespace Eval

open Comparison

variable {limit : Option Nat} {fuel more : Nat} {machine after : Machine}

/-! ## More fuel -/

theorem expression_of_le {node : Expr} {exit : Exit Fault Value}
    (h : expression limit fuel node machine = (exit, after)) (hexit : exit ≠ .outOfFuel)
    (hle : fuel ≤ more) : expression limit more node machine = (exit, after) := by
  obtain ⟨spare, rfl⟩ := Nat.exists_eq_add_of_le' hle
  have hfollows := (follows (refuelling spare) limit fuel).expression node
  replace hfollows : (refuelling spare).Follows (Value.renumber id)
      (expression limit fuel (node.renumber id)) (expression limit (spare + fuel) node) := hfollows
  rw [Expr.renumber_id] at hfollows
  exact hfollows.eq_of_refuelling Value.renumber_id h hexit

theorem statement_of_le {node : Stmt} {exit : Exit Fault Flow}
    (h : statement limit fuel node machine = (exit, after)) (hexit : exit ≠ .outOfFuel)
    (hle : fuel ≤ more) : statement limit more node machine = (exit, after) := by
  obtain ⟨spare, rfl⟩ := Nat.exists_eq_add_of_le' hle
  have hfollows := (follows (refuelling spare) limit fuel).statement node
  replace hfollows : (refuelling spare).Follows (Flow.renumber id)
      (statement limit fuel (node.renumber id)) (statement limit (spare + fuel) node) := hfollows
  rw [Stmt.renumber_id] at hfollows
  exact hfollows.eq_of_refuelling Flow.renumber_id h hexit

theorem program_of_le {nodes : Program} {exit : Exit Fault Unit}
    (h : program limit fuel nodes machine = (exit, after)) (hexit : exit ≠ .outOfFuel)
    (hle : fuel ≤ more) : program limit more nodes machine = (exit, after) := by
  obtain ⟨spare, rfl⟩ := Nat.exists_eq_add_of_le' hle
  have hfollows := follows_program (refuelling spare) limit fuel nodes
  replace hfollows : (refuelling spare).Follows id (program limit fuel (Stmt.renumberEach id nodes))
      (program limit (spare + fuel) nodes) := hfollows
  rw [Stmt.renumberEach_id] at hfollows
  exact hfollows.eq_of_refuelling rfl h hexit

theorem program_eq_of_le {nodes : Program}
    (hends : (program limit fuel nodes machine).1 ≠ .outOfFuel) (hle : fuel ≤ more) :
    program limit more nodes machine = program limit fuel nodes machine := by
  rcases heq : program limit fuel nodes machine with ⟨exit, after⟩
  rw [heq] at hends
  exact program_of_le heq hends hle

/-! ## Other lines -/

/-- A program on other lines does the same, but for the lines. -/
theorem program_renumber (limit : Option Nat) (fuel : Nat) (line : Nat → Nat) (nodes : Program)
    (machine : Machine) :
    program limit fuel (Stmt.renumberEach line nodes) (machine.renumber line) =
      ((program limit fuel nodes machine).1.map (Fault.renumber line) id,
        (program limit fuel nodes machine).2.renumber line) := by
  have hfollows := follows_program (renumbering line) limit fuel nodes
  rw [show (renumbering line).spare + fuel = fuel from Nat.zero_add fuel] at hfollows
  exact hfollows.eq_of_renumbering machine

end Eval

end LoxLang
