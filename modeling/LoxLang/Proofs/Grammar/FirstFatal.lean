/-
# The first fatal error

If tokens are the text of a program, limits aside, then no fatal error is reported, and
otherwise the first one tells where they go wrong: the tokens before the one that it is
located at begin the text of some program, and with it they begin none.

The token may be the end. It is part of no program, so that nothing can follow it.
-/

import LoxLang.Proofs.Grammar.Outcome
import LoxLang.Proofs.Grammar.StatementBlame
import LoxLang.Proofs.Grammar.Vocabulary
import Mathlib.Data.List.Permutation

namespace LoxLang

namespace Grammar

/-! ## Programs have no end inside -/

section

variable {reading : Reading} {tokens : List Token}

/-- None of the tokens is for the end. -/
def Endless (tokens : List Token) : Prop :=
  ∀ token ∈ tokens, token.kind ≠ .eof

@[simp]
theorem endless_nil : Endless [] := nofun

@[simp]
theorem endless_cons {token : Token} :
    Endless (token :: tokens) ↔ token.kind ≠ .eof ∧ Endless tokens :=
  List.forall_mem_cons

@[simp]
theorem endless_append {later : List Token} :
    Endless (tokens ++ later) ↔ Endless tokens ∧ Endless later :=
  List.forall_mem_append

theorem Inline.endless (h : Inline tokens) : Endless tokens :=
  fun token htoken heof => h token htoken (by simp [heof])

mutual

theorem Statement.endless : ∀ {inside ended : Bool} {tokens : List Token} {statement : Stmt},
    Statement reading inside ended tokens statement → Endless tokens
  | _, _, _, _, .expression h => h.inline.endless
  | _, _, _, _, .print hword h => by simp [hword, h.inline.endless]
  | _, _, _, _, .ret hword _ hvalue hsemicolon => by simp [hword, hvalue.inline.endless, hsemicolon]
  | _, _, _, _, .loop hword htest hbody => by simp [hword, htest.inline.endless, hbody.endless]
  | _, _, _, _, .counting hword hparts hbody => by simp [hword, hparts.inline.endless, hbody.endless]
  | _, _, _, _, .branch hword htest hconsequent => by
      simp [hword, htest.inline.endless, hconsequent.endless]
  | _, _, _, _, .branchElse hword htest hconsequent hother halternative => by
      simp [hword, htest.inline.endless, hconsequent.endless, hother, halternative.endless]
  | _, _, _, _, .block hopening hbody hclosing => by simp [hopening, hbody.endless, hclosing]

theorem Declaration.endless : ∀ {inside : Bool} {tokens : List Token} {statement : Stmt},
    Declaration reading inside tokens statement → Endless tokens
  | _, _, _, .function hword hname hnames hopening hbody hclosing => by
      simp [hword, hname, hnames.inline.endless, hopening, hbody.endless, hclosing]
  | _, _, _, .declared h => h.inline.endless
  | _, _, _, .statement h => h.endless

theorem Declarations.endless : ∀ {inside : Bool} {tokens : List Token} {body : List Stmt},
    Declarations reading inside tokens body → Endless tokens
  | _, _, _, .nil => endless_nil
  | _, _, _, .cons hfirst hothers => endless_append.mpr ⟨hfirst.endless, hothers.endless⟩

end

end

/-! ## Texts -/

/-- The tokens are those of a program and one for the end after them. -/
def IsText (reading : Reading) (tokens : List Token) (program : Program) : Prop :=
  ∃ body eof, tokens = body ++ [eof] ∧ eof.kind = .eof ∧ Derives reading body program

/-- The tokens begin the text of some program, limits aside. -/
def Viable (tokens : List Token) : Prop :=
  Begins (IsText .relaxed) tokens

variable {eof : Token} {body before : List Token}

/-- A text ends where its first token for the end stands. -/
theorem isText_append_singleton {reading : Reading} {program : Program} (heof : eof.kind = .eof) :
    IsText reading (body ++ [eof]) program ↔ Derives reading body program := by
  constructor
  · rintro ⟨inner, last, htext, _, hinner⟩
    obtain ⟨rfl, _⟩ := List.append_inj' htext rfl
    exact hinner
  · intro h
    exact ⟨body, eof, rfl, heof, h⟩

theorem viable_of_begins (h : Begins (Derives .relaxed) before) : Viable before :=
  h.within [] fun tokens program hprogram =>
    ⟨[Token.eof 0], program, tokens, Token.eof 0, rfl, rfl, hprogram⟩

/-- Tokens that begin a text are a whole one, or else begin a program. -/
theorem Viable.whole_or_begins {tokens : List Token} (h : Viable tokens) :
    (∃ program, IsText .relaxed tokens program) ∨ Begins (Derives .relaxed) tokens := by
  obtain ⟨more, program, inner, last, htext, hlast, hinner⟩ := h
  rcases List.eq_nil_or_concat more with rfl | ⟨front, final, rfl⟩
  · rw [List.append_nil] at htext
    exact .inl ⟨program, inner, last, htext, hlast, hinner⟩
  · rw [List.concat_eq_append, ← List.append_assoc] at htext
    obtain ⟨rfl, _⟩ := List.append_inj' htext rfl
    exact .inr ⟨front, program, hinner⟩

theorem exists_derives_iff : (∃ program, Derives .relaxed body program) ↔
    firstFatal (declarations eof body).2 = none := by
  rw [firstFatal_eq_none_iff]
  constructor
  · rintro ⟨program, h⟩
    exact ((derives_iff eof).mp h).2
  · intro h
    exact ⟨_, (derives_iff eof).mpr ⟨rfl, h⟩⟩

/-- The first fatal error is located where the tokens cease to begin a text. -/
theorem blamed_token (hbody : Endless body) (heof : eof.kind = .eof) {error : SyntaxError}
    (herror : firstFatal (declarations eof body).2 = some error) :
    ∃ before token after, body ++ [eof] = before ++ token :: after ∧ error.token = token ∧
      Viable before ∧ ¬ Viable (before ++ [token]) := by
  have hnone : ¬ ∃ program, Derives .relaxed body program := by
    rw [@exists_derives_iff eof, herror]
    exact nofun
  obtain ⟨before, rest, rfl, htoken, hbefore, hagain⟩ := blames_declarations body error herror
  cases rest with
  | nil =>
      rw [List.append_nil] at hnone
      refine ⟨before, eof, [], by rw [List.append_nil], htoken, viable_of_begins hbefore, ?_⟩
      intro h
      rcases h.whole_or_begins with ⟨program, htext⟩ | ⟨more, program, hmore⟩
      · exact hnone ⟨program, (isText_append_singleton heof).mp htext⟩
      · -- a program that went on behind the end would hold it
        exact hmore.endless eof (by simp) heof
  | cons next after =>
      refine ⟨before, next, after ++ [eof], by simp, htoken, viable_of_begins hbefore, ?_⟩
      intro h
      rcases h.whole_or_begins with ⟨program, inner, last, htext, hlast, _⟩ | ⟨more, program, hmore⟩
      · obtain ⟨_, hnext⟩ := List.append_inj' htext rfl
        cases hnext
        exact hbody next (by simp) hlast
      · have hread := (@exists_derives_iff eof _).mp ⟨program, hmore⟩
        rw [List.append_assoc, List.singleton_append, hagain next after rfl eof more] at hread
        cases hread

/-- If tokens cease to begin a text at some token, then just those begin one that end
before it. -/
theorem viable_iff_length_le {before after front rest : List Token} {token : Token}
    (hbefore : Viable before) (hnot : ¬ Viable (before ++ [token]))
    (h : before ++ token :: after = front ++ rest) :
    Viable front ↔ front.length ≤ before.length := by
  rcases List.append_eq_append_iff.mp h with ⟨more, rfl, hmore⟩ | ⟨more, rfl, hmore⟩
  · cases more with
    | nil => simpa using hbefore
    | cons next more =>
        cases hmore
        constructor
        · intro hfront
          have hlong : Viable (before ++ [token] ++ more) := by rwa [List.append_assoc]
          exact absurd (hlong.front (before ++ [token])) hnot
        · intro hlength
          rw [List.length_append, List.length_cons] at hlength
          omega
  · constructor
    · intro _
      simp
    · intro _
      exact hbefore.front front

end Grammar

theorem SyntaxFault.isFatal_eq_false_iff (fault : SyntaxFault) : fault.isFatal = false ↔
    fault.message ∈ ["Invalid assignment target.", "Can't return from top-level code.",
      "Can't have more than 255 parameters.", "Can't have more than 255 arguments."] := by
  cases fault <;> decide

namespace Program

open Grammar

/-- All errors but those of four messages are fatal. None that is fatal is reported of
tokens that are the text of a program, limits aside. Of all others the first that is
fatal is located at the first token with which they do not begin a text any more. -/
theorem ofTokens_firstFatal {body : List Token} {eof : Token}
    (hbody : ∀ token ∈ body, token.kind ≠ .eof) (heof : eof.kind = .eof) :
    (∀ fault : SyntaxFault, fault.isFatal = false ↔
      fault.message ∈ ["Invalid assignment target.", "Can't return from top-level code.",
        "Can't have more than 255 parameters.", "Can't have more than 255 arguments."]) ∧
    (firstFatal (errors (ofTokens (body ++ [eof]))) = none ↔
      ∃ program, IsText .relaxed (body ++ [eof]) program) ∧
    ∀ error, firstFatal (errors (ofTokens (body ++ [eof]))) = some error →
      ∃ before token after, body ++ [eof] = before ++ token :: after ∧ error.token = token ∧
        ∀ front rest, body ++ [eof] = front ++ rest →
          (Viable front ↔ front.length ≤ before.length) := by
  have hends : untilEof (body ++ [eof]) = (body, eof) := by
    rw [untilEof_append hbody, untilEof_end heof, List.append_nil]
  rw [errors_ofTokens, hends]
  refine ⟨SyntaxFault.isFatal_eq_false_iff, ?_, ?_⟩
  · simp only [isText_append_singleton heof]
    exact exists_derives_iff.symm
  · intro error herror
    obtain ⟨before, token, after, htokens, htoken, hbefore, hnot⟩ :=
      blamed_token hbody heof herror
    refine ⟨before, token, after, htokens, htoken, fun front rest hfront => ?_⟩
    exact viable_iff_length_le hbefore hnot (htokens.symm.trans hfront)

/-- What is missing after `print` is missed at the semicolon. -/
theorem ofTokens_firstFatal_print :
    ∃ before after, [⟨.keyword .print, "print", none, 1⟩, ⟨.semicolon, ";", none, 1⟩] ++
        [Token.eof 1] = before ++ ⟨.semicolon, ";", none, 1⟩ :: after ∧
      ∀ front rest, [⟨.keyword .print, "print", none, 1⟩, ⟨.semicolon, ";", none, 1⟩] ++
        [Token.eof 1] = front ++ rest → (Viable front ↔ front.length ≤ before.length) := by
  have herror : firstFatal (errors (ofTokens ([⟨.keyword .print, "print", none, 1⟩,
      ⟨.semicolon, ";", none, 1⟩] ++ [Token.eof 1]))) =
        some ⟨.noExpression, ⟨.semicolon, ";", none, 1⟩⟩ := by cbv
  obtain ⟨before, token, after, htokens, rfl, hviable⟩ :=
    (ofTokens_firstFatal (by decide) rfl).2.2 _ herror
  exact ⟨before, after, htokens, hviable⟩

end Program

end LoxLang
