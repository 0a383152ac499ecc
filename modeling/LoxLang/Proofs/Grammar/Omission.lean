/-
# Rules that miss a semicolon

A rule that gives up is followed by recovery, which drops tokens, and then by whatever reads
on behind them. To say what a missing semicolon does, two runs are compared: the one that
misses it, and one that has it but none of the tokens that the first one drops. From where
the tokens are the same the two do the same, so that all that is left of the difference are
errors in front of the first.

There is one exception. An `else` that comes where recovery ends would be taken for an
alternative if the semicolon stood, while without it none is expected there. Each such `else`
is given up in its turn, before the runs are compared.
-/

import LoxLang.Proofs.Grammar.StatementLocality

namespace LoxLang

open Grammar

/-! ## Results with more errors -/

namespace Result

variable {α β γ δ : Type} {errors : List SyntaxError} {first : Result α} {second : Result β}

@[simp]
theorem noting_nil (result : Result α) : result.noting [] = result := by
  cases result <;> rfl

/-- Leaving aside what was read, the first result is the second with the errors in front. -/
inductive Adds (errors : List SyntaxError) : Result α → Result β → Prop
  | read {value : α} {other : β} {rest : List Token} {later : List SyntaxError} :
      Adds errors (.read value rest (errors ++ later)) (.read other rest later)
  | gaveUp {fatal : SyntaxError} {rest : List Token} {later : List SyntaxError} :
      Adds errors (.gaveUp fatal rest (errors ++ later)) (.gaveUp fatal rest later)

namespace Adds

theorem refl (result : Result α) : Adds [] result result := by
  cases result with
  | read value rest errors => exact .read
  | gaveUp fatal rest errors => exact .gaveUp

theorem map_first (h : Adds errors first second) (f : α → γ) :
    Adds errors (first.map f) second := by
  cases h with
  | read => exact .read
  | gaveUp => exact .gaveUp

theorem map_second (h : Adds errors first second) (g : β → δ) :
    Adds errors first (second.map g) := by
  cases h with
  | read => exact .read
  | gaveUp => exact .gaveUp

theorem noting (h : Adds errors first second) (front : List SyntaxError) :
    Adds (front ++ errors) (first.noting front) second := by
  cases h with
  | read =>
      rw [Result.noting, ← List.append_assoc]
      exact .read
  | gaveUp =>
      rw [Result.noting, ← List.append_assoc]
      exact .gaveUp

/-- Of results that are the same but for what was read, one may have more errors noted. -/
theorem of_noting (h : Adds [] first second) (errors later : List SyntaxError) :
    Adds errors (first.noting (errors ++ later)) (second.noting later) := by
  cases h with
  | read =>
      rw [Result.noting, Result.noting, List.append_assoc]
      exact .read
  | gaveUp =>
      rw [Result.noting, Result.noting, List.append_assoc]
      exact .gaveUp

theorem andThen {next : α → List Token → Result γ} {other : β → List Token → Result δ}
    (h : Adds errors first second)
    (hnext : ∀ value value' rest, Adds [] (next value rest) (other value' rest)) :
    Adds errors (first.andThen next) (second.andThen other) := by
  cases h with
  | read => exact (hnext _ _ _).of_noting errors _
  | gaveUp => exact .gaveUp

end Adds

end Result

namespace Attempt

variable {a b : Bool} {α β : Type} {tokens rest : List Token} {value : α}

theorem Yields.result {attempt : Attempt a α tokens} (h : attempt.Yields .strict value rest) :
    attempt.result = .read value rest [] := by
  obtain ⟨errors, left, rfl, rfl⟩ := h
  rfl

/-- What comes after a part that is read without errors decides the result. -/
theorem Yields.result_andThen {attempt : Attempt a α tokens}
    (h : attempt.Yields .strict value rest)
    (next : α → (rest : List Token) → Attempt b β rest) :
    (attempt.andThen fun value rest _ => next value rest).result = (next value rest).result := by
  rw [LoxLang.Attempt.result_andThen, h.result, Result.andThen, Result.noting_nil]

end Attempt

namespace Grammar

open Attempt

variable {eof token : Token} {after : List Token} {inside : Bool}

/-! ## Giving up at once -/

theorem result_expect_of_ne {kind : TokenKind} {fault : SyntaxFault} (h : token.kind ≠ kind) :
    (expect eof kind fault (token :: after)).result =
      .gaveUp ⟨fault, token⟩ (token :: after) [] := by
  rw [expect, accept_of_noneAhead]
  · rfl
  · simpa using h

/-- Where no phrase starts none is read. -/
theorem result_expression_of_not_mem (h : token.kind ∉ Rule.assignment.starters) :
    (expression eof (token :: after)).result =
      .gaveUp ⟨.noExpression, token⟩ (token :: after) [] := by
  have hother {kind : TokenKind} (hkind : kind ∈ Rule.assignment.starters) : token.kind ≠ kind :=
    fun heq => h (heq ▸ hkind)
  have hprimary : (primary eof (token :: after)).result =
      .gaveUp ⟨.noExpression, token⟩ (token :: after) [] := by
    rw [primary]
    split
    next heq => exact absurd heq (hother (by decide))
    next heq => exact absurd heq (hother (by decide))
    next heq => exact absurd heq (hother (by decide))
    next heq => exact absurd heq (hother (by decide))
    next heq => exact absurd heq (hother (by decide))
    next heq => exact absurd heq (hother (by decide))
    next heq => exact absurd heq (hother (by decide))
    next => rfl
  have hunary : (unary eof (token :: after)).result =
      .gaveUp ⟨.noExpression, token⟩ (token :: after) [] := by
    have hahead : NoneAhead unaryOperators (token :: after) :=
      noneAhead_cons.mpr fun hmem => h (List.mem_append_right _ hmem)
    rw [unary, accept_of_noneAhead hahead, application, result_andThen, hprimary]
    rfl
  have hchain (levels : List Tier) : (chain eof levels (token :: after)).result =
      .gaveUp ⟨.noExpression, token⟩ (token :: after) [] := by
    induction levels with
    | nil =>
        rw [chain]
        exact hunary
    | cons tier tighter ih =>
        rw [chain, result_andThen, ih]
        rfl
  rw [expression, result_andThen, hchain]
  rfl

/-- No declaration starts with an `else`. -/
theorem firstDeclaration_else (h : token.kind = .keyword .else) :
    firstDeclaration eof inside (token :: after) =
      ⟨none, resume (token :: after), [⟨.noExpression, token⟩]⟩ := by
  have hother {kind : TokenKind} (hkind : .keyword .else ≠ kind) : token.kind ≠ kind := by
    rwa [h]
  rw [firstDeclaration, declared_statement eof (hother (by decide)) (hother (by decide)),
    statement_expression eof (hother (by decide)) (hother (by decide)) (hother (by decide))
      (hother (by decide)) (hother (by decide)) (hother (by decide)),
    terminated, result_andThen, result_expression_of_not_mem (by rw [h]; decide)]
  rfl

/-! ## Alternatives of no branch -/

/-- The errors at each `else` that comes where a declaration should, and the tokens after
what is dropped for them. -/
def orphans (tokens : List Token) : List SyntaxError × List Token :=
  match tokens with
  | [] => ([], [])
  | token :: after =>
    if token.kind = .keyword .else then
      let others := orphans (resume (token :: after))
      (⟨.noExpression, token⟩ :: others.1, others.2)
    else ([], token :: after)
termination_by tokens.length
decreasing_by exact length_resume_lt (Nat.le_refl _)

variable {tokens : List Token}

theorem orphans_of_noneAhead (h : NoneAhead [.keyword .else] tokens) :
    orphans tokens = ([], tokens) := by
  cases tokens with
  | nil => rw [orphans]
  | cons token after => rw [orphans, if_neg (by simpa using h)]

theorem noneAhead_orphans (tokens : List Token) :
    NoneAhead [.keyword .else] (orphans tokens).2 := by
  fun_induction orphans tokens with
  | case1 => exact noneAhead_nil _
  | case2 token after helse others ih => exact ih
  | case3 token after hother => exact noneAhead_cons.mpr (by simpa using hother)

theorem orphans_ne_nil (h : ¬ NoneAhead [.keyword .else] tokens) : (orphans tokens).1 ≠ [] := by
  cases tokens with
  | nil => exact absurd (noneAhead_nil _) h
  | cons token after =>
      rw [orphans, if_pos (by simpa using h)]
      exact List.cons_ne_nil _ _

theorem adds_block_orphans (tokens : List Token) :
    (block eof inside tokens).result.Adds (orphans tokens).1
      (block eof inside (orphans tokens).2).result := by
  fun_induction orphans tokens with
  | case1 => exact .refl _
  | case2 token after helse others ih =>
      rw [result_block_cons (by simp [helse]), firstDeclaration_else helse]
      exact (ih.map_first _).noting [_]
  | case3 token after hother => exact .refl _

/-! ## Rules that miss a semicolon -/

/-- What the rule does without the semicolon that `more` follows in what it should read. If
nothing follows it there, then the rule gives up at the token in its place. Otherwise the
rule goes on behind what is dropped as it would with the semicolon there, with the errors
that were found on the way. -/
def Misses {α : Type} (semicolon : Token) (error : SyntaxError) (more : List Token)
    (run : List Token → Result α) : Prop :=
  match more with
  | [] => ∀ later, run (error.token :: later) = .gaveUp error (error.token :: later) []
  | _ :: _ => ∀ later,
    let found := orphans (resume (error.token :: later))
    (run (error.token :: later)).Adds (error :: found.1) (run (semicolon :: found.2))

namespace Misses

variable {α β : Type} {semicolon next : Token} {error : SyntaxError} {more : List Token}
  {run other : List Token → Result α}

/-- All that counts of what follows is whether anything does. -/
theorem append (h : Misses semicolon error (next :: more) run) (later : List Token) :
    Misses semicolon error (next :: more ++ later) run :=
  h

theorem congr (h : Misses semicolon error more run) (heq : ∀ rest, other rest = run rest) :
    Misses semicolon error more other := by
  rwa [show other = run from funext heq]

theorem map (h : Misses semicolon error more run) (f : α → β) :
    Misses semicolon error more fun rest => (run rest).map f := by
  cases more with
  | nil =>
      intro later
      exact congrArg (Result.map f) (h later)
  | cons next more =>
      intro later found
      exact ((h later).map_first f).map_second f

/-- What comes after is not reached, or reached behind the same tokens. -/
theorem andThen (h : Misses semicolon error more run) {next : α → List Token → Result β}
    (hnext : ∀ value value' rest, (next value rest).Adds [] (next value' rest)) :
    Misses semicolon error more fun rest => (run rest).andThen next := by
  cases more with
  | nil =>
      intro later
      exact congrArg (Result.andThen · next) (h later)
  | cons token more =>
      intro later found
      exact (h later).andThen hnext

end Misses

/-- The faults that a missing semicolon is reported as. -/
def unterminated : List SyntaxFault :=
  [.noSemicolonAfterVariable, .noSemicolonAfterValue, .noSemicolonAfterReturnValue,
    .noSemicolonAfterExpression, .noExpression]

end Grammar

end LoxLang
