/-
# What tokens are read as

A list of tokens is read as a program or as errors, never as both. Which of the two it is
comes down to the declarations before the first token for the end, and to that token,
where the errors at the end are located.
-/

import LoxLang.Proofs.Grammar.Recognition

namespace LoxLang

namespace Program

open Grammar

/-- The errors that tokens are met with, none if they are read as a program. -/
def errors : Except (List SyntaxError) Program → List SyntaxError
  | .ok _ => []
  | .error errors => errors

variable {tokens : List Token} {program : Program}

theorem ofTokens_eq_ok_iff : ofTokens tokens = .ok program ↔
    declarations (untilEof tokens).2 (untilEof tokens).1 = (program, []) := by
  simp only [ofTokens]
  rcases declarations (untilEof tokens).2 (untilEof tokens).1 with ⟨read, _ | ⟨error, errors⟩⟩
  · simp
  · simp

theorem errors_ofTokens (tokens : List Token) :
    errors (ofTokens tokens) = (declarations (untilEof tokens).2 (untilEof tokens).1).2 := by
  simp only [ofTokens]
  rcases declarations (untilEof tokens).2 (untilEof tokens).1 with ⟨read, _ | ⟨error, errors⟩⟩
  · rfl
  · rfl

/-- Tokens that are met with no errors are read. -/
theorem exists_ofTokens_iff :
    (∃ program, ofTokens tokens = .ok program) ↔ errors (ofTokens tokens) = [] := by
  simp [ofTokens_eq_ok_iff, errors_ofTokens, Prod.ext_iff]

/-- A program that is read is derived. -/
theorem derives_of_ofTokens (h : ofTokens tokens = .ok program) :
    Derives .strict (tokens.takeWhile (·.kind != .eof)) program := by
  rw [ofTokens_eq_ok_iff] at h
  rw [derives_iff (untilEof tokens).2]
  exact Prod.ext_iff.mp h

/-- And what is derived is read. -/
theorem ofTokens_of_derives (h : Derives .strict (tokens.takeWhile (·.kind != .eof)) program) :
    ofTokens tokens = .ok program := by
  rw [derives_iff (untilEof tokens).2] at h
  rw [ofTokens_eq_ok_iff]
  exact Prod.ext_iff.mpr h

end Program

/-- Tokens are read as an expression if it uses up all of them and no error is met. -/
theorem Expr.expression_of_ofTokens {tokens : List Token} {node : Expr}
    (h : ofTokens tokens = .ok node) :
    ∃ left, Grammar.expression (untilEof tokens).2 (untilEof tokens).1 = .ok node [] [] left := by
  simp only [ofTokens] at h
  cases heq : Grammar.expression (untilEof tokens).2 (untilEof tokens).1 with
  | fail fatal rest errors left =>
      rw [heq] at h
      cases h
  | ok value rest errors left =>
      rw [heq] at h
      dsimp only at h
      split at h
      next hnone =>
        obtain ⟨rfl, htrailing⟩ := List.append_eq_nil_iff.mp hnone
        cases rest with
        | nil =>
            cases h
            exact ⟨left, rfl⟩
        | cons token rest => cases htrailing
      next => cases h

/-- An expression that is read is derived. -/
theorem Expr.phrase_of_ofTokens {tokens : List Token} {node : Expr}
    (h : ofTokens tokens = .ok node) :
    Grammar.Phrase .strict .assignment (tokens.takeWhile (·.kind != .eof)) node := by
  obtain ⟨left, hread⟩ := expression_of_ofTokens h
  have hsound : (Grammar.expression (untilEof tokens).2 (untilEof tokens).1).Sound .strict
      fun used value _ => Grammar.Phrase .strict .assignment used value :=
    Grammar.sound_expression _ _
  rw [hread] at hsound
  obtain ⟨used, hused, hphrase⟩ := hsound rfl
  rw [List.append_nil] at hused
  rw [← hused] at hphrase
  exact hphrase

/-! ## Where the tokens end -/

section

variable {tokens : List Token} {eof : Token}

/-- Tokens that none is for the end of come before all that count of what follows. -/
theorem untilEof_append (h : ∀ token ∈ tokens, token.kind ≠ .eof) (later : List Token) :
    untilEof (tokens ++ later) = (tokens ++ (untilEof later).1, (untilEof later).2) := by
  have hbefore : ∀ token ∈ tokens, (token.kind != .eof) = true := by simpa using h
  have hnone : tokens.find? (·.kind == .eof) = none := by simpa using h
  simp only [untilEof, List.takeWhile_append_of_pos hbefore, List.find?_append, hnone,
    Option.none_or]

theorem untilEof_cons {token : Token} (h : token.kind ≠ .eof) (later : List Token) :
    untilEof (token :: later) = (token :: (untilEof later).1, (untilEof later).2) :=
  @untilEof_append [token] (by simpa using h) later

theorem untilEof_end (heof : eof.kind = .eof) : untilEof [eof] = ([], eof) := by
  simp [untilEof, heof]

/-- None of the tokens that count is for the end. -/
theorem kind_of_mem_untilEof {token : Token} (h : token ∈ (untilEof tokens).1) :
    token.kind ≠ .eof := by
  simpa using List.all_eq_true.mp List.all_takeWhile token h

/-- Errors at the end are located at a token for it. -/
theorem kind_untilEof (tokens : List Token) : (untilEof tokens).2.kind = .eof := by
  rw [untilEof]
  cases found : tokens.find? (·.kind == .eof) with
  | none => rfl
  | some token => simpa using List.find?_some found

end

end LoxLang
