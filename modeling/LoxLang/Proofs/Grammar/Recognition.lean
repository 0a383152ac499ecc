/-
# What the grammar accepts

Soundness and completeness of the rules meet here. A list of tokens is read without
errors exactly if the tokens before the first one for the end derive a program in the
strict reading, and the program that is read is the one that is derived. So there is
never more than one. All other lists are objected to, with at least one error.

The same holds of the relaxed reading if errors that are not fatal are let pass.
-/

import LoxLang.Proofs.Grammar.StatementComplete

namespace LoxLang

namespace Grammar

variable (eof : Token) {reading : Reading} {tokens : List Token} {program : Program}

/-- What is read with no error that is not admitted is derived. -/
theorem derives_of_admits (h : reading.Admits (declarations eof tokens).2) :
    Derives reading tokens (declarations eof tokens).1 := by
  fun_induction declarations eof tokens with
  | case1 => exact .nil
  | case2 first after statement rest errors shorter heq others ih =>
      obtain ⟨hfirst, hothers⟩ := Reading.admits_append.mp h
      have hsound : SoundRecovery reading (Declaration reading false)
          (declaration eof false first after) := (sound_statementRules eof).1 false first after
      rw [heq] at hsound
      obtain ⟨used, read, hread, hused, hderived⟩ := hsound hfirst
      cases hread
      rw [hused]
      exact .cons hderived (ih hothers)

/-- What the declarations of the tokens are read as is what the tokens derive. -/
theorem derives_iff : Derives reading tokens program ↔
    (declarations eof tokens).1 = program ∧ reading.Admits (declarations eof tokens).2 := by
  constructor
  · exact fun h => h.reads eof
  · rintro ⟨rfl, hadmits⟩
    exact derives_of_admits eof hadmits

/-- The grammar is unambiguous, in either reading. -/
theorem Derives.unique {other : Program} (h : Derives reading tokens program)
    (hother : Derives reading tokens other) : program = other := by
  obtain ⟨hprogram, _⟩ := (derives_iff (Token.eof 0)).mp h
  obtain ⟨hother, _⟩ := (derives_iff (Token.eof 0)).mp hother
  rw [← hprogram, hother]

end Grammar

namespace Program

open Grammar

/-- Tokens are read as a program exactly if those before the end derive it, and all
tokens that derive none are met with errors. -/
theorem ofTokens_iff_derives (tokens : List Token) :
    (∀ program, ofTokens tokens = .ok program ↔
      Derives .strict (tokens.takeWhile (·.kind != .eof)) program) ∧
    ((∀ program, ¬ Derives .strict (tokens.takeWhile (·.kind != .eof)) program) ↔
      ∃ errors, ofTokens tokens = .error errors ∧ errors ≠ []) := by
  have hderives (program : Program) :
      Derives .strict (tokens.takeWhile (·.kind != .eof)) program ↔
        declarations (untilEof tokens).2 (untilEof tokens).1 = (program, []) := by
    rw [derives_iff (untilEof tokens).2, Prod.ext_iff]
    rfl
  simp only [hderives, ofTokens]
  rcases declarations (untilEof tokens).2 (untilEof tokens).1 with ⟨read, _ | ⟨error, errors⟩⟩
  · constructor
    · simp
    · simp
  · constructor
    · simp
    · simp

end Program

end LoxLang
