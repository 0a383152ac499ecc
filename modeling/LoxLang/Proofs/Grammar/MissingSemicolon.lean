/-
# A semicolon missing before a brace

Without the semicolon before the brace that closes a block, the statement that it ends is
given up at the brace. That brace is the first token that is dropped, so the block is not
closed by it, and more is dropped up to where reading goes on.

What is reported is the error at the brace, and then whatever there is to report of the
tokens with the semicolon in its place and without those that were dropped. The blocks
around the statement are closed one brace late: if nothing that follows makes up for the one
that was dropped, then the outermost of them is found unclosed, and there is more than one
error.
-/

import LoxLang.Proofs.Grammar.Omission
import LoxLang.Proofs.Grammar.Outcome
import LoxLang.Proofs.Grammar.Vocabulary

namespace LoxLang

namespace Grammar

open Attempt

variable {eof : Token} {after tokens rest : List Token} {inside : Bool}

/-! ## Where the semicolon stands -/

/-- If the next token there is, it is a brace that closes a block. -/
def BraceAhead (tokens : List Token) : Prop :=
  ∀ next ∈ tokens.head?, next.kind = .rightBrace

variable {semicolon brace : Token} {front more later : List Token}

theorem BraceAhead.of_append (h : BraceAhead (more ++ later)) : BraceAhead more := by
  cases more with
  | nil => nofun
  | cons next more => exact h

/-- The semicolon does not come first where another kind of token does. -/
theorem exists_front {first : Token} {others : List Token}
    (heq : first :: others = front ++ semicolon :: more) (hne : first.kind ≠ semicolon.kind) :
    ∃ later, front = first :: later ∧ others = later ++ semicolon :: more := by
  cases front with
  | nil =>
      cases heq
      exact absurd rfl hne
  | cons token front =>
      cases heq
      exact ⟨front, rfl, rfl⟩

/-- So it does not come first where no semicolon is ahead, and that does not depend on what
follows. -/
theorem noneAhead_front {kinds : List TokenKind} (h : NoneAhead kinds (front ++ semicolon :: more))
    (hmem : semicolon.kind ∈ kinds) (rest : List Token) : NoneAhead kinds (front ++ rest) := by
  cases front with
  | nil => exact absurd hmem (noneAhead_cons.mp h)
  | cons token front => exact noneAhead_cons.mpr (noneAhead_cons.mp h)

/-- No brace comes right behind a semicolon in what has no brace. -/
theorem Inline.eq_nil (h : Inline (front ++ semicolon :: more)) (hmore : BraceAhead more) :
    more = [] := by
  cases more with
  | nil => rfl
  | cons next more =>
      have hnext := h next (by simp)
      rw [hmore next rfl] at hnext
      exact absurd (by decide) hnext

/-- A semicolon before a brace comes after what has no brace, if that is followed by a token
other than a brace. -/
theorem Inline.exists_append {header : List Token} (h : Inline header) (hmore : BraceAhead more)
    {kinds : List TokenKind} (hbrace : .rightBrace ∈ kinds)
    (hstart : ∃ first others, tokens = first :: others ∧ first.kind ∉ kinds)
    (heq : header ++ tokens = front ++ semicolon :: more) :
    ∃ later, front = header ++ later ∧ tokens = later ++ semicolon :: more := by
  rcases List.append_eq_append_iff.mp heq with ⟨later, hfront, htokens⟩ | ⟨within, rfl, hrest⟩
  · exact ⟨later, hfront, htokens⟩
  · cases within with
    | nil => exact ⟨[], by simp, hrest.symm⟩
    | cons next within =>
        cases hrest
        obtain rfl : within = [] := by
          cases within with
          | nil => rfl
          | cons next within => cases h.eq_nil hmore
        obtain ⟨first, others, rfl, hfirst⟩ := hstart
        rw [hmore first rfl] at hfirst
        exact absurd hbrace hfirst

/-! ## Statements that end with a semicolon -/

theorem Terminated.misses {value : Expr} (h : Terminated .strict (front ++ semicolon :: more) value)
    (hmore : BraceAhead more) (hbrace : brace.kind = .rightBrace) (make : Expr → Stmt)
    (fault : SyntaxFault) :
    Misses semicolon ⟨fault, brace⟩ more fun rest =>
      (terminated eof make fault (front ++ rest)).result := by
  obtain rfl := h.inline.eq_nil hmore
  generalize htokens : front ++ [semicolon] = tokens at h
  cases h with
  | intro hvalue _ =>
      obtain ⟨rfl, _⟩ := List.append_inj' htokens rfl
      intro later
      dsimp only
      have hyields := @Phrase.yields_before eof _ _ later _ hvalue brace _ hbrace (by decide)
      rw [terminated, hyields.result_andThen, result_map, result_expect_of_ne (by simp [hbrace])]
      rfl

theorem Variable.misses {stmt : Stmt} (h : Variable .strict (front ++ semicolon :: more) stmt)
    (hmore : BraceAhead more) (hbrace : brace.kind = .rightBrace) :
    Misses semicolon ⟨.noSemicolonAfterVariable, brace⟩ more fun rest =>
      (declared eof inside (front ++ rest)).result := by
  obtain rfl := h.inline.eq_nil hmore
  generalize htokens : front ++ [semicolon] = tokens at h
  cases h with
  | @bare word name last hword hname _ =>
      have hsplit : front ++ [semicolon] = [word, name] ++ [last] := htokens
      obtain ⟨rfl, _⟩ := List.append_inj' hsplit rfl
      intro later
      dsimp only
      rw [List.cons_append, declared_var eof hword, result_afterToken, variableDeclaration,
        List.singleton_append, (yields_expect eof hname).result_andThen,
        accept_of_noneAhead (noneAhead_of_kind hbrace (by decide)), result_map,
        result_expect_of_ne (by simp [hbrace])]
      rfl
  | @initial word name equals last tokens _ hword hname hequals hvalue hsemicolon =>
      have hsplit : front ++ [semicolon] = word :: name :: equals :: tokens ++ [last] := htokens
      obtain ⟨rfl, hlast⟩ := List.append_inj' hsplit rfl
      cases hlast
      have hterminated := @Terminated.misses eof _ brace _ _ _ (.intro hvalue hsemicolon) hmore
        hbrace (fun initial => .var name (some initial)) .noSemicolonAfterVariable
      apply hterminated.congr
      intro rest
      rw [List.cons_append, declared_var eof hword, result_afterToken, variableDeclaration,
        List.cons_append, (yields_expect eof hname).result_andThen, List.cons_append, accept,
        if_pos (List.mem_singleton.mpr hequals), result_afterToken]

/-- Without its semicolon a return is given up at the brace, where a value may be missed. -/
theorem OptionalPhrase.misses {value : Option Expr} {word : Token}
    (h : OptionalPhrase .strict front value) (hbrace : brace.kind = .rightBrace) :
    ∃ fault ∈ unterminated, Misses semicolon ⟨fault, brace⟩ [] fun rest =>
      (returned eof true word (front ++ rest)).result := by
  cases h with
  | absent =>
      refine ⟨.noExpression, by decide, fun later => ?_⟩
      dsimp only
      rw [List.nil_append, returned, if_pos rfl,
        optional_of_noneAhead eof (noneAhead_of_kind hbrace (by decide)), result_noting,
        result_andThen, result_weaken, result_map,
        result_expression_of_not_mem (by rw [hbrace]; decide)]
      rfl
  | present h =>
      refine ⟨.noSemicolonAfterReturnValue, by decide, fun later => ?_⟩
      dsimp only
      have hyields := @Phrase.yields_before eof _ _ later _ h brace _ hbrace (by decide)
      rw [returned, if_pos rfl, optional_of_noneAhead eof (h.noneAhead (by decide)), result_noting,
        (hyields.map some).weaken.result_andThen, result_map,
        result_expect_of_ne (by simp [hbrace])]
      rfl

/-! ## Statements and declarations -/

theorem statement_of_starter {first : Token} (h : first.kind ∈ Rule.assignment.starters) :
    statement eof inside (first :: after) =
      terminated eof .expression .noSemicolonAfterExpression (first :: after) := by
  have hother {kind : TokenKind} (hkind : kind ∉ Rule.assignment.starters) : first.kind ≠ kind :=
    fun heq => hkind (heq ▸ h)
  exact statement_expression eof (hother (by decide)) (hother (by decide)) (hother (by decide))
    (hother (by decide)) (hother (by decide)) (hother (by decide))

/-- What comes after the consequent of a branch. -/
def alternative (eof : Token) (inside : Bool) (test : Expr) (consequent : Stmt)
    (tokens : List Token) : Attempt false Stmt tokens :=
  accept [.keyword .else] tokens
    (fun _ after _ =>
      (statement eof inside after).map fun alternative =>
        .branch test consequent (some alternative))
    (.done (.branch test consequent none))

/-- Whether there is an alternative does not depend on the consequent. -/
theorem adds_alternative (test : Expr) (consequent other : Stmt) (tokens : List Token) :
    (alternative eof inside test consequent tokens).result.Adds []
      (alternative eof inside test other tokens).result := by
  by_cases hahead : NoneAhead [.keyword .else] tokens
  · rw [alternative, alternative, accept_of_noneAhead hahead, accept_of_noneAhead hahead]
    exact .read
  · obtain ⟨token, after, rfl, hmem⟩ := exists_of_not_noneAhead hahead
    rw [alternative, alternative, accept, accept, if_pos hmem, if_pos hmem,
      result_afterToken, result_afterToken, result_map, result_map]
    exact ((Result.Adds.refl _).map_first _).map_second _

theorem branch_of_condition {header : List Token} {test : Expr}
    (h : Condition .strict header test) (tokens : List Token) :
    (branch eof inside (header ++ tokens)).result =
      (statement eof inside tokens).result.andThen fun consequent rest =>
        (alternative eof inside test consequent rest).result := by
  rw [branch, (h.yields eof).result_andThen, result_andThen]
  rfl

/-- A block that a declaration is given up in, or goes on in, does so too. -/
theorem adds_block_cons {errors : List SyntaxError} {first second : Token} {others : List Token}
    (hfirst : first.kind ≠ .rightBrace) (hsecond : second.kind ≠ .rightBrace)
    (h : (declared eof inside (first :: after)).result.Adds errors
      (declared eof inside (second :: others)).result) :
    (block eof inside (first :: after)).result.Adds errors
      (block eof inside (second :: others)).result := by
  rw [result_block_cons hfirst, result_block_cons hsecond, firstDeclaration, firstDeclaration]
  generalize (declared eof inside (first :: after)).result = one at h
  generalize (declared eof inside (second :: others)).result = two at h
  cases h with
  | read => exact (((Result.Adds.refl _).map_first _).map_second _).of_noting _ _
  | gaveUp =>
      rw [recovery, List.append_assoc]
      exact (((Result.Adds.refl _).map_first _).map_second _).of_noting _ _

theorem YieldsRecovery.firstDeclaration_eq {first : Token} {stmt : Stmt}
    (h : YieldsRecovery .strict stmt rest (declaration eof inside first after)) :
    firstDeclaration eof inside (first :: after) = ⟨some stmt, rest, []⟩ := by
  rcases hdeclaration : declaration eof inside first after with ⟨statement, left, errors, shorter⟩
  rw [hdeclaration] at h
  obtain ⟨rfl, rfl, rfl⟩ := h
  exact LoxLang.Grammar.firstDeclaration_eq hdeclaration

/-- A declaration that is given up is as good as one that is read, but for the error and
the alternatives that are left behind. -/
theorem adds_block_gaveUp {first second : Token} {others : List Token} {error : SyntaxError}
    {stmt : Stmt} (hfirst : first.kind ≠ .rightBrace) (hsecond : second.kind ≠ .rightBrace)
    (h : (declared eof inside (first :: after)).result = .gaveUp error rest [])
    (hread : YieldsRecovery .strict stmt (orphans (resume rest)).2
      (declaration eof inside second others)) :
    (block eof inside (first :: after)).result.Adds (error :: (orphans (resume rest)).1)
      (block eof inside (second :: others)).result := by
  rw [result_block_cons hfirst, result_block_cons hsecond, hread.firstDeclaration_eq,
    firstDeclaration, h]
  dsimp only [recovery]
  rw [Result.noting_nil]
  exact (((adds_block_orphans _).map_first _).map_second _).noting [error]

/-- A declaration that is read comes first in a block. -/
theorem Declaration.result_block {stmt : Stmt} (h : Declaration .strict inside tokens stmt)
    (hrest : NoneAhead [.keyword .else] rest) :
    (block eof inside (tokens ++ rest)).result =
      (block eof inside rest).result.map (stmt :: ·) := by
  obtain ⟨_, _, hstart, hkind⟩ := h.exists_start
  obtain ⟨first, others, rfl, hread⟩ := h.yields eof rest hrest
  cases hstart
  rw [List.cons_append, result_block_cons fun hbrace => hkind (by rw [hbrace]; decide),
    hread.firstDeclaration_eq, Result.noting_nil]
  rfl

/-- A block misses the semicolon that its first declaration misses. -/
theorem Declaration.misses_block {stmt : Stmt} {error : SyntaxError} {within others : List Token}
    (h : Declaration .strict inside (front ++ semicolon :: within) stmt)
    (hsemicolon : semicolon.kind = .semicolon) (hne : within ++ others ≠ [])
    (hmisses : Misses semicolon error within fun rest =>
      (Grammar.declared eof inside (front ++ rest)).result) :
    Misses semicolon error (within ++ others) fun rest =>
      (block eof inside (front ++ rest)).result := by
  obtain ⟨first, after, hstart, hkind⟩ := h.exists_start
  have hfirst : first.kind ≠ .rightBrace := fun hbrace => hkind (by rw [hbrace]; decide)
  obtain ⟨front, rfl, rfl⟩ :=
    exists_front hstart.symm fun heq => hkind (by rw [heq, hsemicolon]; decide)
  cases within with
  | cons next within =>
      intro later found
      exact adds_block_cons hfirst hfirst (hmisses later)
  | nil =>
      cases others with
      | nil => exact absurd rfl hne
      | cons next others =>
          intro later found
          obtain ⟨_, _, heq, hread⟩ := h.yields eof found.2 (noneAhead_orphans _)
          rw [List.cons_append] at heq
          obtain ⟨rfl, rfl⟩ := List.cons.inj heq
          rw [List.append_assoc, List.singleton_append] at hread
          exact adds_block_gaveUp hfirst hfirst (hmisses later) hread

mutual

/-- A statement without its last semicolon, or without one at the end of a block in it. -/
theorem Statement.misses (eof : Token) (hsemicolon : semicolon.kind = .semicolon)
    (hbrace : brace.kind = .rightBrace) :
    ∀ {inside ended : Bool} {tokens : List Token} {stmt : Stmt},
      Statement .strict inside ended tokens stmt →
      ∀ {front more : List Token}, tokens = front ++ semicolon :: more → BraceAhead more →
        ∃ fault ∈ unterminated, Misses semicolon ⟨fault, brace⟩ more fun rest =>
          (statement eof inside (front ++ rest)).result
  | _, _, _, _, .expression h, front, more, heq, hmore => by
      obtain ⟨first, others, hstart, hfirst⟩ := h.exists_start
      have hne : first.kind ≠ semicolon.kind := by
        intro hkind
        rw [hkind, hsemicolon] at hfirst
        exact absurd hfirst (by decide)
      subst heq
      obtain ⟨later, rfl, _⟩ := exists_front hstart.symm hne
      refine ⟨.noSemicolonAfterExpression, by decide, ?_⟩
      apply (h.misses hmore hbrace .expression _).congr
      intro rest
      rw [List.cons_append, statement_of_starter hfirst]
  | _, _, _, _, .print hword h, front, more, heq, hmore => by
      obtain ⟨later, rfl, rfl⟩ := exists_front heq (by simp [hword, hsemicolon])
      refine ⟨.noSemicolonAfterValue, by decide, ?_⟩
      apply (h.misses hmore hbrace .print _).congr
      intro rest
      rw [List.cons_append, statement_print eof hword, result_afterToken]
  | _, _, _, _, @Statement.ret _ _ word last tokens value hword hinside hvalue hlast, front, more,
      heq, hmore => by
      obtain ⟨later, rfl, hothers⟩ := exists_front heq (by simp [hword, hsemicolon])
      cases hinside rfl
      have hinline : Inline (tokens ++ [last]) := by simp [hvalue.inline, hlast]
      rw [hothers] at hinline
      obtain rfl := hinline.eq_nil hmore
      obtain ⟨rfl, _⟩ := List.append_inj' hothers rfl
      obtain ⟨fault, hfault, hmisses⟩ := hvalue.misses hbrace
      refine ⟨fault, hfault, hmisses.congr fun rest => ?_⟩
      rw [List.cons_append, statement_return eof hword, result_afterToken]
  | _, _, _, _, @Statement.loop _ _ _ _ _ _ test _ hword htest hbody, front, more, heq, hmore => by
      obtain ⟨others, rfl, hothers⟩ := exists_front heq (by simp [hword, hsemicolon])
      obtain ⟨later, rfl, hlater⟩ :=
        htest.inline.exists_append hmore (by decide) hbody.exists_start hothers
      obtain ⟨fault, hfault, hmisses⟩ := hbody.misses eof hsemicolon hbrace hlater hmore
      refine ⟨fault, hfault, ?_⟩
      apply (hmisses.map (.loop test)).congr
      intro rest
      rw [List.cons_append, List.append_assoc, statement_while eof hword, result_afterToken, loop,
        (htest.yields eof).result_andThen, result_map]
  | _, _, _, _, @Statement.counting _ _ _ _ _ _ initial condition step _ hword hparts hbody, front,
      more, heq, hmore => by
      obtain ⟨others, rfl, hothers⟩ := exists_front heq (by simp [hword, hsemicolon])
      obtain ⟨later, rfl, hlater⟩ :=
        hparts.inline.exists_append hmore (by decide) hbody.exists_start hothers
      obtain ⟨fault, hfault, hmisses⟩ := hbody.misses eof hsemicolon hbrace hlater hmore
      refine ⟨fault, hfault, ?_⟩
      apply (hmisses.map (.counting initial condition step)).congr
      intro rest
      rw [List.cons_append, List.append_assoc, statement_for eof hword, result_afterToken,
        countingLoop, (hparts.yields eof).result_andThen, result_map]
  | _, _, _, _, .branch hword htest hconsequent, front, more, heq, hmore => by
      obtain ⟨others, rfl, hothers⟩ := exists_front heq (by simp [hword, hsemicolon])
      obtain ⟨later, rfl, hlater⟩ :=
        htest.inline.exists_append hmore (by decide) hconsequent.exists_start hothers
      obtain ⟨fault, hfault, hmisses⟩ := hconsequent.misses eof hsemicolon hbrace hlater hmore
      refine ⟨fault, hfault, ?_⟩
      apply (hmisses.andThen (adds_alternative _)).congr
      intro rest
      rw [List.cons_append, List.append_assoc, statement_if eof hword, result_afterToken,
        branch_of_condition htest]
  | _, _, _, _, @Statement.branchElse _ _ _ word other header before after test consequent _
      hword htest hconsequent hother halternative, front, more, heq, hmore => by
      rw [List.append_assoc] at heq
      obtain ⟨others, rfl, hothers⟩ := exists_front heq (by simp [hword, hsemicolon])
      have hstart : ∃ first others, before ++ other :: after = first :: others ∧
          first.kind ∉ [.keyword .fun, .keyword .var, .keyword .else, .rightBrace, .semicolon] := by
        obtain ⟨first, others, rfl, hfirst⟩ := hconsequent.exists_start
        exact ⟨first, _, rfl, hfirst⟩
      obtain ⟨later, rfl, hlater⟩ := htest.inline.exists_append hmore (by decide) hstart hothers
      rcases List.append_eq_append_iff.mp hlater with
        ⟨within, rfl, hafter⟩ | ⟨within, hbefore, hrest⟩
      · -- the semicolon is in the alternative
        obtain ⟨later, rfl, halternate⟩ := exists_front hafter (by simp [hother, hsemicolon])
        obtain ⟨fault, hfault, hmisses⟩ :=
          halternative.misses eof hsemicolon hbrace halternate hmore
        refine ⟨fault, hfault, ?_⟩
        apply (hmisses.map fun alternative => .branch test consequent (some alternative)).congr
        intro rest
        have hread := hconsequent.yields eof (other :: (later ++ rest)) nofun
        rw [List.cons_append, List.append_assoc, List.append_assoc, List.cons_append,
          statement_if eof hword, result_afterToken, branch_of_condition htest, hread.result,
          Result.andThen, Result.noting_nil, alternative, accept,
          if_pos (List.mem_singleton.mpr hother), result_afterToken, result_map]
      · -- the semicolon is in the consequent, and so is the brace
        cases within with
        | nil =>
            cases hrest
            rw [hsemicolon] at hother
            cases hother
        | cons token within =>
            cases hrest
            cases within with
            | nil =>
                have hkind := hmore other rfl
                rw [hother] at hkind
                cases hkind
            | cons next within =>
                obtain ⟨fault, hfault, hmisses⟩ :=
                  hconsequent.misses eof hsemicolon hbrace hbefore hmore
                refine ⟨fault, hfault, ?_⟩
                apply Misses.congr ((hmisses.append _).andThen (adds_alternative _))
                intro rest
                rw [List.cons_append, List.append_assoc, statement_if eof hword, result_afterToken,
                  branch_of_condition htest]
  | _, _, _, _, .block hopening hbody hclosing, front, more, heq, hmore => by
      obtain ⟨others, rfl, hothers⟩ := exists_front heq (by simp [hopening, hsemicolon])
      obtain ⟨fault, hfault, hmisses⟩ :=
        hbody.misses eof hsemicolon hbrace hclosing hothers hmore
      refine ⟨fault, hfault, ?_⟩
      apply (hmisses.map .block).congr
      intro rest
      rw [List.cons_append, statement_block eof hopening, result_afterToken, result_map]

theorem Declaration.misses (eof : Token) (hsemicolon : semicolon.kind = .semicolon)
    (hbrace : brace.kind = .rightBrace) :
    ∀ {inside : Bool} {tokens : List Token} {stmt : Stmt},
      Declaration .strict inside tokens stmt →
      ∀ {front more : List Token}, tokens = front ++ semicolon :: more → BraceAhead more →
        ∃ fault ∈ unterminated, Misses semicolon ⟨fault, brace⟩ more fun rest =>
          (Grammar.declared eof inside (front ++ rest)).result
  | _, _, _, @Declaration.function _ _ word name opening closing header body names _ hword hname
      hnames hopening hbody hclosing, front, more, heq, hmore => by
      obtain ⟨others, rfl, hothers⟩ := exists_front heq (by simp [hword, hsemicolon])
      obtain ⟨unnamed, rfl, hunnamed⟩ := exists_front hothers (by simp [hname, hsemicolon])
      obtain ⟨braced, rfl, hbraced⟩ := hnames.inline.exists_append hmore
        (List.mem_singleton_self _) ⟨opening, _, rfl, by simp [hopening]⟩ hunnamed
      obtain ⟨later, rfl, hlater⟩ := exists_front hbraced (by simp [hopening, hsemicolon])
      obtain ⟨fault, hfault, hmisses⟩ := hbody.misses eof hsemicolon hbrace hclosing hlater hmore
      refine ⟨fault, hfault, ?_⟩
      apply (hmisses.map (.function name names)).congr
      intro rest
      have hassoc : name :: (header ++ opening :: later) ++ rest =
          name :: (header ++ opening :: (later ++ rest)) := by simp
      rw [List.cons_append, declared_fun eof hword, result_afterToken, function, hassoc]
      rw [(yields_signature eof hname hnames hopening).result_andThen, result_map]
  | _, _, _, .declared h, front, more, heq, hmore => by
      subst heq
      exact ⟨_, by decide, h.misses hmore hbrace⟩
  | _, _, _, .statement h, front, more, heq, hmore => by
      obtain ⟨fault, hfault, hmisses⟩ := h.misses eof hsemicolon hbrace heq hmore
      obtain ⟨first, others, hstart, hfirst⟩ := h.exists_start
      rw [heq] at hstart
      obtain ⟨later, rfl, _⟩ := exists_front hstart.symm fun hkind =>
        hfirst (by rw [hkind, hsemicolon]; decide)
      refine ⟨fault, hfault, hmisses.congr fun rest => ?_⟩
      rw [List.cons_append, declared_statement eof (fun hkind => hfirst (by rw [hkind]; decide))
        (fun hkind => hfirst (by rw [hkind]; decide))]

/-- So do the declarations of a block, up to the brace that closes it. -/
theorem Declarations.misses (eof : Token) (hsemicolon : semicolon.kind = .semicolon)
    (hbrace : brace.kind = .rightBrace) :
    ∀ {inside : Bool} {tokens : List Token} {body : List Stmt},
      Declarations .strict inside tokens body →
      ∀ {closing : Token} {front more : List Token}, closing.kind = .rightBrace →
        tokens ++ [closing] = front ++ semicolon :: more → BraceAhead more →
        ∃ fault ∈ unterminated, Misses semicolon ⟨fault, brace⟩ more fun rest =>
          (block eof inside (front ++ rest)).result
  | _, _, _, .nil, closing, front, more, hclosing, heq, hmore => by
      obtain ⟨later, rfl, hnil⟩ := exists_front heq (by simp [hclosing, hsemicolon])
      simp at hnil
  | _, _, _, @Declarations.cons _ _ before after _ _ hfirst hothers, closing, front, more, hclosing,
      heq, hmore => by
      have hahead : NoneAhead [.keyword .else, .semicolon] (after ++ [closing]) :=
        hothers.noneAhead (by decide) (noneAhead_of_kind hclosing (by decide))
      rw [List.append_assoc] at heq
      rcases List.append_eq_append_iff.mp heq with ⟨later, rfl, hlater⟩ | ⟨within, hbefore, hrest⟩
      · -- the first declaration is read
        obtain ⟨fault, hfault, hmisses⟩ :=
          hothers.misses eof hsemicolon hbrace hclosing hlater hmore
        refine ⟨fault, hfault, ?_⟩
        apply (hmisses.map _).congr
        intro rest
        rw [hlater] at hahead
        have hrest := noneAhead_front hahead (by simp [hsemicolon]) rest
        rw [List.append_assoc, hfirst.result_block (hrest.mono (by decide))]
      · -- the first declaration misses the semicolon
        cases within with
        | nil =>
            rw [← List.nil_append (after ++ [closing]), ← hrest, noneAhead_cons] at hahead
            exact absurd (by simp [hsemicolon]) hahead
        | cons token within =>
            cases hrest
            obtain ⟨fault, hfault, hmisses⟩ :=
              hfirst.misses eof hsemicolon hbrace hbefore hmore.of_append
            subst hbefore
            exact ⟨fault, hfault, hfirst.misses_block hsemicolon (by simp) hmisses⟩

end

/-! ## Programs -/

theorem Declaration.errors_declarations {stmt : Stmt} (h : Declaration .strict false tokens stmt)
    (hrest : NoneAhead [.keyword .else] rest) :
    (declarations eof (tokens ++ rest)).2 = (declarations eof rest).2 := by
  obtain ⟨first, others, rfl, hread⟩ := h.yields eof rest hrest
  rw [List.cons_append, declarations_eq_firstDeclaration, hread.firstDeclaration_eq]
  rfl

theorem errors_declarations_of_adds {errors : List SyntaxError} {first second : Token}
    {others : List Token}
    (h : (declared eof false (first :: after)).result.Adds errors
      (declared eof false (second :: others)).result) :
    (declarations eof (first :: after)).2 = errors ++ (declarations eof (second :: others)).2 := by
  rw [declarations_eq_firstDeclaration, declarations_eq_firstDeclaration, firstDeclaration,
    firstDeclaration]
  generalize (declared eof false (first :: after)).result = one at h
  generalize (declared eof false (second :: others)).result = two at h
  cases h with
  | read => exact List.append_assoc _ _ _
  | gaveUp => simp only [recovery, List.append_assoc]

/-- A program without a semicolon at the end of a block in it has the error at the brace, the
errors at the alternatives that are left behind, and those of what is read instead. -/
theorem Declarations.errors_missing (eof : Token) (hsemicolon : semicolon.kind = .semicolon)
    (hbrace : brace.kind = .rightBrace) :
    ∀ {tokens : List Token} {program : Program}, Declarations .strict false tokens program →
      ∀ {front back : List Token}, tokens = front ++ semicolon :: brace :: back →
        ∃ fault ∈ unterminated, ∀ later,
          let found := orphans (resume (brace :: later))
          (declarations eof (front ++ brace :: later)).2 =
            (⟨fault, brace⟩ :: found.1) ++ (declarations eof (front ++ semicolon :: found.2)).2
  | _, _, .nil, front, back, heq => by simp at heq
  | _, _, @Declarations.cons _ _ before after _ _ hfirst hothers, front, back, heq => by
      have hahead : NoneAhead [.keyword .else, .rightBrace, .semicolon] after := by
        simpa using hothers.noneAhead (by decide) (noneAhead_nil _)
      rcases List.append_eq_append_iff.mp heq with ⟨later, rfl, hlater⟩ | ⟨within, hbefore, hrest⟩
      · obtain ⟨fault, hfault, herrors⟩ := hothers.errors_missing eof hsemicolon hbrace hlater
        refine ⟨fault, hfault, ?_⟩
        intro rest found
        rw [hlater] at hahead
        have helse (other : List Token) : NoneAhead [.keyword .else] (later ++ other) :=
          (noneAhead_front hahead (by simp [hsemicolon]) other).mono (by decide)
        rw [List.append_assoc, List.append_assoc, hfirst.errors_declarations (helse _),
          hfirst.errors_declarations (helse _)]
        exact herrors rest
      · rcases within with _ | ⟨token, _ | ⟨next, within⟩⟩
        · rw [← List.nil_append after, ← hrest, noneAhead_cons] at hahead
          exact absurd (by simp [hsemicolon]) hahead
        · cases hrest
          exact absurd (by simp [hbrace]) (noneAhead_cons.mp hahead)
        · cases hrest
          have hmore : BraceAhead (brace :: within) := by simp [BraceAhead, hbrace]
          obtain ⟨fault, hfault, hmisses⟩ := hfirst.misses eof hsemicolon hbrace hbefore hmore
          refine ⟨fault, hfault, fun later => ?_⟩
          obtain ⟨first, others, hstart, hkind⟩ := hfirst.exists_start
          rw [hbefore] at hstart
          obtain ⟨front, rfl, _⟩ :=
            exists_front hstart.symm fun heq => hkind (by rw [heq, hsemicolon]; decide)
          exact errors_declarations_of_adds (hmisses later)

/-- The tokens that count and what recovery leaves of them, with the end behind. -/
def resumed (tokens : List Token) : List Token :=
  resume (untilEof tokens).1 ++ [(untilEof tokens).2]

theorem mem_of_mem_resume : token ∈ resume tokens → token ∈ tokens := by
  fun_induction resume tokens with
  | case1 => exact id
  | case2 dropped rest hstop => exact List.mem_cons_of_mem dropped
  | case3 dropped rest hgo ih => exact fun h => List.mem_cons_of_mem dropped (ih h)

theorem untilEof_resumed (hfront : ∀ token ∈ front, token.kind ≠ .eof) (tokens : List Token) :
    untilEof (front ++ resumed tokens) =
      (front ++ resume (untilEof tokens).1, (untilEof tokens).2) := by
  rw [resumed, ← List.append_assoc, untilEof_append, untilEof_end (kind_untilEof tokens),
    List.append_nil]
  intro token htoken
  rcases List.mem_append.mp htoken with htoken | htoken
  · exact hfront token htoken
  · exact kind_of_mem_untilEof (mem_of_mem_resume htoken)

end Grammar

namespace Program

open Grammar

/-- In a program a semicolon stands before a brace only where the last statement of a block
ends. If that semicolon is left out, then the first error is at the brace. After it come the
errors of the program in which the semicolon stands and what recovery drops does not, from
the brace on. So the error at the brace is the only one just if that program has none; and it
is not the only one if an `else` comes where recovery ends. -/
theorem ofTokens_missing_semicolon {front back : List Token} {semicolon brace : Token}
    {program : Program} (hfront : ∀ token ∈ front, token.kind ≠ .eof)
    (hsemicolon : semicolon.kind = .semicolon) (hbrace : brace.kind = .rightBrace)
    (h : ofTokens (front ++ semicolon :: brace :: back) = .ok program) :
    ∃ fault ∈ unterminated, ∃ more,
      errors (ofTokens (front ++ brace :: back)) = ⟨fault, brace⟩ :: more ∧
      (NoneAhead [.keyword .else] (resumed (brace :: back)) →
        more = errors (ofTokens (front ++ semicolon :: resumed (brace :: back)))) ∧
      (more = [] ↔ NoneAhead [.keyword .else] (resumed (brace :: back)) ∧
        ∃ others, ofTokens (front ++ semicolon :: resumed (brace :: back)) = .ok others) := by
  have hbrace_ne : brace.kind ≠ .eof := by simp [hbrace]
  have hsemicolon_ne : semicolon.kind ≠ .eof := by simp [hsemicolon]
  have hderived : Derives .strict (untilEof (front ++ semicolon :: brace :: back)).1 program :=
    derives_of_ofTokens h
  rw [untilEof_append hfront, untilEof_cons hsemicolon_ne, untilEof_cons hbrace_ne] at hderived
  obtain ⟨fault, hfault, herrors⟩ :=
    Declarations.errors_missing (untilEof back).2 hsemicolon hbrace hderived rfl
  have hresumed : untilEof (front ++ semicolon :: resumed (brace :: back)) =
      (front ++ semicolon :: resume (brace :: (untilEof back).1), (untilEof back).2) := by
    have hbefore : ∀ token ∈ front ++ [semicolon], token.kind ≠ .eof := by
      simpa [or_imp, forall_and, hsemicolon] using hfront
    simpa [untilEof_cons hbrace_ne] using untilEof_resumed hbefore (brace :: back)
  have hahead : NoneAhead [.keyword .else] (resumed (brace :: back)) ↔
      NoneAhead [.keyword .else] (resume (brace :: (untilEof back).1)) := by
    rw [resumed, untilEof_cons hbrace_ne]
    cases resume (brace :: (untilEof back).1) with
    | nil => simp [kind_untilEof]
    | cons next rest => simp
  rw [errors_ofTokens, errors_ofTokens, untilEof_append hfront, untilEof_cons hbrace_ne, hresumed,
    hahead]
  simp only [ofTokens_eq_ok_iff, hresumed]
  refine ⟨fault, hfault, _, herrors _, fun hnone => ?_, ?_⟩
  · rw [orphans_of_noneAhead hnone]
    rfl
  · by_cases hnone : NoneAhead [.keyword .else] (resume (brace :: (untilEof back).1))
    · rw [orphans_of_noneAhead hnone]
      simp [hnone, Prod.ext_iff]
    · simp [hnone, orphans_ne_nil hnone]

/-- Of two blocks the second is dropped up to its brace, which then closes the first. -/
theorem ofTokens_missing_semicolon_blocks :
    ∃ fault ∈ unterminated,
      errors (ofTokens ([⟨.leftBrace, "\x7b", none, 1⟩, ⟨.keyword .nil, "nil", none, 1⟩] ++
        ⟨.rightBrace, "\x7d", none, 1⟩ :: [⟨.leftBrace, "\x7b", none, 2⟩,
          ⟨.keyword .nil, "nil", none, 2⟩, ⟨.semicolon, ";", none, 2⟩,
          ⟨.rightBrace, "\x7d", none, 2⟩, Token.eof 2])) =
        [⟨fault, ⟨.rightBrace, "\x7d", none, 1⟩⟩] := by
  have hahead : NoneAhead [.keyword .else] (resumed [⟨.rightBrace, "\x7d", none, 1⟩,
      ⟨.leftBrace, "\x7b", none, 2⟩, ⟨.keyword .nil, "nil", none, 2⟩, ⟨.semicolon, ";", none, 2⟩,
      ⟨.rightBrace, "\x7d", none, 2⟩, Token.eof 2]) :=
    noneAhead_of_kind rfl (by decide)
  obtain ⟨program, hprogram⟩ : ∃ program,
      ofTokens ([⟨.leftBrace, "\x7b", none, 1⟩, ⟨.keyword .nil, "nil", none, 1⟩] ++
        ⟨.semicolon, ";", none, 1⟩ :: ⟨.rightBrace, "\x7d", none, 1⟩ ::
        [⟨.leftBrace, "\x7b", none, 2⟩, ⟨.keyword .nil, "nil", none, 2⟩,
          ⟨.semicolon, ";", none, 2⟩, ⟨.rightBrace, "\x7d", none, 2⟩, Token.eof 2]) = .ok program :=
    exists_ofTokens_iff.mpr (by decide +kernel)
  obtain ⟨fault, hfault, more, herrors, _, hnone⟩ :=
    ofTokens_missing_semicolon (by decide) rfl rfl hprogram
  rw [hnone.mpr ⟨hahead, exists_ofTokens_iff.mpr (by decide +kernel)⟩] at herrors
  exact ⟨fault, hfault, herrors⟩

/-- With nothing behind it the block is not closed, which is a second error. -/
theorem ofTokens_missing_semicolon_unclosed :
    (∃ program, ofTokens [⟨.leftBrace, "\x7b", none, 1⟩, ⟨.keyword .nil, "nil", none, 1⟩,
      ⟨.semicolon, ";", none, 1⟩, ⟨.rightBrace, "\x7d", none, 1⟩, Token.eof 1] = .ok program) ∧
    errors (ofTokens [⟨.leftBrace, "\x7b", none, 1⟩, ⟨.keyword .nil, "nil", none, 1⟩,
      ⟨.rightBrace, "\x7d", none, 1⟩, Token.eof 1]) =
      [⟨.noSemicolonAfterExpression, ⟨.rightBrace, "\x7d", none, 1⟩⟩,
        ⟨.noBraceAfterBlock, Token.eof 1⟩] := by
  constructor
  · exact exists_ofTokens_iff.mpr (by decide +kernel)
  · decide +kernel

end Program

end LoxLang
