/-
# Programs in sequence

What is wrong with some statements has no bearing on those after them. If tokens are read
as a program, or else end with a semicolon and have no error at their end, then any others
may follow that do not start with an `else`: the errors of both are reported one after the
other, and two programs make one.

A statement that is given up is dropped up to the semicolon at the latest, so that what
follows is read from its start. An error at the end is another matter: there the tokens
that follow may be what was missing.
-/

import LoxLang.Proofs.Grammar.Outcome
import LoxLang.Proofs.Grammar.StatementLocality
import Mathlib.Data.List.Permutation

namespace LoxLang

namespace Grammar

variable {eof : Token} {tokens later : List Token}

/-- The last token, if there is one, is a semicolon. -/
def Terminal (tokens : List Token) : Prop :=
  ∀ last ∈ tokens.getLast?, last.kind = .semicolon

theorem terminal_append_singleton {last : Token} (h : last.kind = .semicolon) :
    Terminal (tokens ++ [last]) := by
  intro token htoken
  rw [List.getLast?_concat] at htoken
  cases htoken
  exact h

theorem Terminal.of_append (front : List Token) (h : Terminal (front ++ tokens)) :
    Terminal tokens := by
  intro last hlast
  apply h
  rw [List.getLast?_append, hlast]
  rfl

/-- Before a semicolon at the end, dropping tokens stops at the semicolon at the latest. -/
theorem resume_append (hne : tokens ≠ []) (h : Terminal tokens) (later : List Token) :
    resume (tokens ++ later) = resume tokens ++ later ∧ Terminal (resume tokens) := by
  induction tokens with
  | nil => exact absurd rfl hne
  | cons token tokens ih =>
      have hrest : Terminal tokens := h.of_append [token]
      rw [List.cons_append, resume, resume]
      by_cases hnil : tokens = []
      · subst hnil
        have hsemicolon : token.kind = .semicolon := h token rfl
        rw [if_pos (.inl hsemicolon), if_pos (.inl hsemicolon)]
        exact ⟨rfl, hrest⟩
      · have hhead : resumesAt (tokens ++ later) = resumesAt tokens := by
          cases tokens with
          | nil => exact absurd rfl hnil
          | cons next tokens => exact resumesAt_congr rfl
        rw [hhead]
        split
        · exact ⟨rfl, hrest⟩
        · exact ih hnil hrest

/-- The errors leave no doubt about what follows: there are none, or the tokens end with
a semicolon and no error is located at their end. -/
def Settled (tokens : List Token) (errors : List SyntaxError) : Prop :=
  errors = [] ∨ Terminal tokens ∧ ∀ error ∈ errors, error.token.kind ≠ .eof

/-- One declaration becomes the same whatever follows. -/
theorem firstDeclaration_append {first : Token} {after : List Token} {recovered : Recovery}
    (h : firstDeclaration eof false (first :: after) = recovered)
    (heof : eof.kind = .eof) (hlater : NoneAhead [.keyword .else] later)
    (hsettled : Settled (first :: after) recovered.errors) (eof' : Token) :
    firstDeclaration eof' false (first :: after ++ later) =
        { recovered with rest := recovered.rest ++ later } ∧
      (Terminal (first :: after) → Terminal recovered.rest) := by
  have hlocal := @local_declared eof false first after
  subst h
  rw [firstDeclaration] at hsettled
  rw [firstDeclaration, firstDeclaration]
  cases hresult : (declared eof false (first :: after)).result with
  | read statement rest errors =>
      obtain ⟨used, hused, hagain⟩ := hlocal.read hresult
      have hother : Interchangeable [.keyword .else] rest (rest ++ later) := by
        cases rest with
        | nil => exact .inr ⟨noneAhead_nil _, hlater⟩
        | cons next rest => exact .inl rfl
      rw [hused, List.append_assoc, hagain eof' _ hother]
      exact ⟨rfl, Terminal.of_append used⟩
  | gaveUp fatal rest errors =>
      rw [hresult] at hsettled
      obtain ⟨hterminal, hinside⟩ : Terminal (first :: after) ∧ fatal.token.kind ≠ .eof := by
        rcases hsettled with hnil | ⟨hterminal, hinside⟩
        · cases (List.append_eq_nil_iff.mp hnil).2
        · exact ⟨hterminal, hinside fatal (by simp [recovery])⟩
      obtain ⟨used, hused, hlocated, hagain⟩ := hlocal.gaveUp hresult
      cases rest with
      | nil =>
          -- only a number or a string is blamed that was read before, and it is no semicolon
          rcases hlocated with hend | ⟨front, rfl, hkind⟩
          · rw [hend] at hinside
            exact absurd heof hinside
          · rw [hused, List.append_nil] at hterminal
            have hsemicolon := hterminal fatal.token (by simp)
            rw [hsemicolon] at hkind
            rcases hkind with hkind | hkind <;> cases hkind
      | cons next rest =>
          rw [hused] at hterminal
          obtain ⟨hresume, hstops⟩ :=
            resume_append (List.cons_ne_nil next rest) (hterminal.of_append used) later
          rw [hused, List.append_assoc, List.cons_append, hagain next rest rfl eof' (rest ++ later)]
          rw [recovery, ← List.cons_append, hresume]
          exact ⟨rfl, fun _ => hstops⟩

/-- So do all declarations. -/
theorem declarations_append (heof : eof.kind = .eof) (hlater : NoneAhead [.keyword .else] later)
    (eof' : Token) (h : Settled tokens (declarations eof tokens).2) :
    declarations eof' (tokens ++ later) =
      ((declarations eof tokens).1 ++ (declarations eof' later).1,
        (declarations eof tokens).2 ++ (declarations eof' later).2) := by
  revert h
  fun_induction declarations eof tokens with
  | case1 =>
      intro _
      rfl
  | case2 first after statement rest errors shorter heq others ih =>
      intro h
      have hfirst : Settled (first :: after) errors := by
        rcases h with hnil | ⟨hterminal, hinside⟩
        · exact .inl (List.append_eq_nil_iff.mp hnil).1
        · exact .inr ⟨hterminal, fun error herror => hinside error (List.mem_append_left _ herror)⟩
      obtain ⟨hsame, hterminal⟩ :=
        firstDeclaration_append (firstDeclaration_eq heq) heof hlater hfirst eof'
      have hrest : Settled rest others.2 := by
        rcases h with hnil | ⟨hlast, hinside⟩
        · exact .inl (List.append_eq_nil_iff.mp hnil).2
        · exact .inr ⟨hterminal hlast,
            fun error herror => hinside error (List.mem_append_right _ herror)⟩
      rw [List.cons_append] at hsame ⊢
      rw [declarations_eq_firstDeclaration, hsame, ih hrest]
      simp only [List.append_assoc]
      rfl

theorem noneAhead_untilEof {kinds : List TokenKind} (h : NoneAhead kinds later) :
    NoneAhead kinds (untilEof later).1 := by
  cases later with
  | nil => exact noneAhead_nil _
  | cons next later =>
      rw [untilEof, List.takeWhile_cons]
      split
      · exact h
      · exact noneAhead_nil _

end Grammar

namespace Program

open Grammar

/-- Tokens that are read as a program, or that end with a semicolon and have no error at
their end, may be followed by any others that do not start with an `else`. The errors
reported are those of both, and if there are none the program is that of both. -/
theorem ofTokens_append {tokens later : List Token} {eof : Token} (heof : eof.kind = .eof)
    (htokens : ∀ token ∈ tokens, token.kind ≠ .eof) (hlater : NoneAhead [.keyword .else] later)
    (h : (∃ program, ofTokens (tokens ++ [eof]) = .ok program) ∨
      (∃ front semicolon, tokens = front ++ [semicolon] ∧ semicolon.kind = .semicolon) ∧
        ∀ error ∈ errors (ofTokens (tokens ++ [eof])), error.token.kind ≠ .eof) :
    errors (ofTokens (tokens ++ later)) =
        errors (ofTokens (tokens ++ [eof])) ++ errors (ofTokens later) ∧
      ∀ program others, ofTokens (tokens ++ [eof]) = .ok program → ofTokens later = .ok others →
        ofTokens (tokens ++ later) = .ok (program ++ others) := by
  have hends : untilEof (tokens ++ [eof]) = (tokens, eof) := by
    rw [untilEof_append htokens, untilEof_end heof, List.append_nil]
  have hsettled : Settled tokens (declarations eof tokens).2 := by
    rcases h with ⟨program, hok⟩ | ⟨⟨front, semicolon, rfl, hkind⟩, hinside⟩
    · rw [ofTokens_eq_ok_iff, hends] at hok
      exact .inl (congrArg Prod.snd hok)
    · rw [errors_ofTokens, hends] at hinside
      exact .inr ⟨terminal_append_singleton hkind, hinside⟩
  have happend := declarations_append heof (noneAhead_untilEof hlater) (untilEof later).2 hsettled
  constructor
  · rw [errors_ofTokens, errors_ofTokens, errors_ofTokens, untilEof_append htokens, hends, happend]
  · intro program others hprogram hothers
    rw [ofTokens_eq_ok_iff] at hprogram hothers ⊢
    rw [hends] at hprogram
    rw [untilEof_append htokens, happend, hprogram, hothers]
    rfl

/-- A statement that is given up at its semicolon takes nothing from the one after it. -/
theorem ofTokens_append_malformed :
    errors (ofTokens ([⟨.keyword .print, "print", none, 1⟩, ⟨.semicolon, ";", none, 1⟩] ++
      [⟨.keyword .nil, "nil", none, 2⟩, ⟨.bang, "!", none, 2⟩])) =
        [⟨.noExpression, ⟨.semicolon, ";", none, 1⟩⟩] ++
          [⟨.noSemicolonAfterExpression, ⟨.bang, "!", none, 2⟩⟩] := by
  have hfirst : errors (ofTokens ([⟨.keyword .print, "print", none, 1⟩,
      ⟨.semicolon, ";", none, 1⟩] ++ [Token.eof 2])) =
        [⟨.noExpression, ⟨.semicolon, ";", none, 1⟩⟩] := by cbv
  have hlater : errors (ofTokens [⟨.keyword .nil, "nil", none, 2⟩, ⟨.bang, "!", none, 2⟩]) =
      [⟨.noSemicolonAfterExpression, ⟨.bang, "!", none, 2⟩⟩] := by cbv
  have hinside : ∀ error ∈ errors (ofTokens ([⟨.keyword .print, "print", none, 1⟩,
      ⟨.semicolon, ";", none, 1⟩] ++ [Token.eof 2])), error.token.kind ≠ .eof := by
    rw [hfirst]
    decide
  rw [(@ofTokens_append [_, _] _ (Token.eof 2) rfl (by decide) (noneAhead_cons.mpr (by decide))
    (.inr ⟨⟨[_], _, rfl, rfl⟩, hinside⟩)).1, hfirst, hlater]

end Program

end LoxLang
