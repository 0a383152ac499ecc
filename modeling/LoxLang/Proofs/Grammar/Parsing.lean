/-
# Parsing ends

Wherever the index of a parser is that is not behind the place where the tokens end, every
rule ends, and leaves it there or further on, but never behind that place. How much fuel is
enough for this is told by the number of the tokens, and more of it makes no difference. A
declaration that is started before that place moves the index in any case. A rule that gives
up may have read nothing, but recovery then passes the next token before it looks for the
start of a statement, be it in a program or in a block.

So a program is read declaration by declaration until the index is where the tokens end, and
what it is read as is what the list of the tokens before that place is read as. No token
behind it is ever looked at.
-/

import LoxLang.Proofs.Grammar.StatementCursor

namespace LoxLang

namespace Parser

variable {tokens rest : List Token} {parser : Parser} {fuel : Nat}

/-- Fuel that is enough to read from anywhere in the tokens. -/
def enough (tokens : List Token) : Nat :=
  16 * tokens.length + 14

theorem Stands.lt_of_enough (h : Stands tokens parser rest) (hfuel : enough tokens ≤ fuel) :
    16 * rest.length + 13 < fuel := by
  have hlength := h.length
  have hstop := stop_le_length tokens
  rw [enough] at hfuel
  omega

/-- Before the place where the tokens end there is one that is not for the end. -/
theorem Stands.exists_cons (h : Stands tokens parser rest) (before : parser.current < stop tokens) :
    ∃ first later, rest = first :: later := by
  cases rest with
  | nil => exact absurd h.current_nil (Nat.ne_of_lt before)
  | cons first later => exact ⟨first, later, rfl⟩

/-! ## A program -/

/-- A declaration leads to where the list rule leaves off. -/
theorem follows_declaration {first : Token} {later : List Token}
    (hfuel : 16 * (first :: later).length + 12 < fuel)
    (h : Stands tokens parser (first :: later)) {recovered : Grammar.Recovery}
    (hrecovered : Grammar.firstDeclaration (untilEof tokens).2 parser.insideFunction
      (first :: later) = recovered) :
    ∃ after, declaration fuel parser = some (recovered.statement, after) ∧
      Leads tokens parser after recovered.rest recovered.errors := by
  obtain ⟨fuel, rfl⟩ := exists_fuel hfuel
  have hdeclared :=
    (follows_statementRules tokens).1 _ first later fuel (by omega) parser h rfl
  rw [declaration_eq, ← hrecovered]
  exact recovering_of_follows hdeclared

/-- Once a declaration is read or recovered from, the index has moved on. -/
theorem current_lt_of_declaration {first : Token} {later : List Token} {inside : Bool}
    {after : Parser} {errors : List SyntaxError} (h : Stands tokens parser (first :: later))
    (leads : Leads tokens parser after (Grammar.firstDeclaration (untilEof tokens).2 inside
      (first :: later)).rest errors) : parser.current < after.current :=
  h.current_lt leads.stands Grammar.length_firstDeclaration_lt

/-- Outside functions, the declarations of the tokens ahead are added to those read before. The
induction is on the number of these tokens, of which each declaration leaves fewer. -/
theorem follows_declarations (hfuel : 16 * rest.length + 13 < fuel)
    (h : Stands tokens parser rest) (hdepth : parser.functionDepth = 0) (before : Program) :
    ∃ after, declarations fuel before parser =
        some (before ++ (Grammar.declarations (untilEof tokens).2 rest).1, after) ∧
      Leads tokens parser after [] (Grammar.declarations (untilEof tokens).2 rest).2 := by
  induction hlength : rest.length using Nat.strong_induction_on generalizing
    rest fuel parser before with
  | _ length ih =>
      subst hlength
      obtain ⟨fuel, rfl⟩ := exists_fuel hfuel
      rw [declarations]
      dsimp only
      rw [h.isAtEnd]
      cases rest with
      | nil =>
          rw [Grammar.declarations, List.append_nil]
          exact ⟨parser, rfl, h.leads⟩
      | cons first later =>
          have houtside : parser.insideFunction = false := by
            rw [insideFunction, hdepth]
            rfl
          obtain ⟨next, hdeclaration, leads⟩ :=
            follows_declaration (Nat.lt_of_succ_lt_succ hfuel) h rfl
          rw [houtside] at hdeclaration leads
          have hshorter : (Grammar.firstDeclaration (untilEof tokens).2 false
              (first :: later)).rest.length < (first :: later).length :=
            Grammar.length_firstDeclaration_lt
          have hothers : 16 * (Grammar.firstDeclaration (untilEof tokens).2 false
              (first :: later)).rest.length + 13 < fuel := by omega
          obtain ⟨after, hothers, hleads⟩ := ih _ hshorter hothers leads.stands
            (leads.depth.trans hdepth) (before ++ (Grammar.firstDeclaration (untilEof tokens).2
              false (first :: later)).statement.toList) rfl
          rw [Grammar.declarations_eq_firstDeclaration]
          refine ⟨after, ?_, leads.trans hleads⟩
          rw [List.isEmpty_cons, if_neg Bool.false_ne_true, hdeclaration, ← List.append_assoc]
          exact hothers

theorem ofTokens_eq_verdict (tokens : List Token) : Program.ofTokens tokens =
    verdict (Grammar.declarations (untilEof tokens).2 (untilEof tokens).1).1
      (Grammar.declarations (untilEof tokens).2 (untilEof tokens).1).2 := by
  simp only [Program.ofTokens]
  rcases Grammar.declarations (untilEof tokens).2 (untilEof tokens).1 with
    ⟨program, _ | ⟨error, errors⟩⟩
  · rfl
  · rfl

/-- A program is read as the list of the tokens that count is. -/
theorem parse_eq_ofTokens (hfuel : enough tokens ≤ fuel) :
    parse fuel tokens = some (Program.ofTokens tokens) := by
  have h := stands_start tokens
  obtain ⟨after, hdeclarations, leads⟩ :=
    follows_declarations (h.lt_of_enough hfuel) h rfl []
  have hfound := leads.found
  rw [start, List.nil_append] at hfound
  rw [parse, hdeclarations, ofTokens_eq_verdict, ← hfound]
  rfl

/-! ## A single expression -/

theorem Stands.errors_recordTrailing (h : Stands tokens parser rest) :
    parser.recordTrailing.errors = parser.errors ++ Grammar.trailing rest := by
  rw [recordTrailing, h.isAtEnd, h.peek]
  cases rest with
  | nil => exact (List.append_nil _).symm
  | cons token rest => rfl

/-- So is an expression, after which no tokens may be left. -/
theorem parseExpression_eq_ofTokens (hfuel : enough tokens ≤ fuel) :
    parseExpression fuel tokens = some (Expr.ofTokens tokens) := by
  have h := stands_start tokens
  have hgiven := h.lt_of_enough hfuel
  have hneeded : 16 * (untilEof tokens).1.length + 10 < fuel := by omega
  obtain ⟨after, hexpression, leads⟩ := follows_expression hneeded h
  have hfound := leads.found
  rw [start, List.nil_append] at hfound
  rw [parseExpression, hexpression]
  cases hattempt : Grammar.expression (untilEof tokens).2 (untilEof tokens).1 with
  | fail fatal rest errors left =>
      have hlist : Expr.ofTokens tokens = .error (errors ++ [fatal]) := by
        simp only [Expr.ofTokens, hattempt]
      rw [hattempt] at hfound
      rw [hlist]
      change some (Except.error (after.errors ++ [fatal])) = _
      rw [hfound]
      rfl
  | ok value rest errors left =>
      have hlist : Expr.ofTokens tokens = verdict value (errors ++ Grammar.trailing rest) := by
        simp only [Expr.ofTokens, hattempt]
        cases errors ++ Grammar.trailing rest <;> rfl
      rw [hattempt] at hfound leads
      rw [hlist]
      change some (verdict value after.recordTrailing.errors) = _
      rw [leads.stands.errors_recordTrailing, hfound]
      rfl

/-! ## Tokens that do not count -/

theorem untilEof_cons_eof {token : Token} (h : token.kind = .eof) (later : List Token) :
    untilEof (token :: later) = ([], token) := by
  simp [untilEof, h]

/-- Only the tokens up to the first one for the end count. -/
theorem untilEof_congr {others : List Token}
    (same : others.take (stop tokens + 1) = tokens.take (stop tokens + 1)) :
    untilEof others = untilEof tokens := by
  induction tokens generalizing others with
  | nil =>
      rw [List.take_nil] at same
      rcases List.take_eq_nil_iff.mp same with habsurd | rfl
      · cases habsurd
      · rfl
  | cons token tokens ih =>
      obtain ⟨more, rfl⟩ : ∃ more, others = token :: more := by
        cases others with
        | nil => cases same
        | cons other more =>
            cases (List.cons.inj same).1
            exact ⟨more, rfl⟩
      by_cases hkind : token.kind = .eof
      · rw [untilEof_cons_eof hkind, untilEof_cons_eof hkind]
      · have hstop : stop (token :: tokens) = stop tokens + 1 := by
          rw [stop, List.findIdx_cons, beq_eq_false_iff_ne.mpr hkind]
          rfl
        rw [hstop, List.take_succ_cons, List.take_succ_cons] at same
        rw [untilEof_cons hkind, untilEof_cons hkind, ih (List.cons.inj same).2]

/-- Tokens that lack an end have one on line zero. -/
theorem untilEof_append_eof (tokens : List Token) :
    untilEof (tokens ++ [Token.eof 0]) = untilEof tokens := by
  induction tokens with
  | nil => rfl
  | cons token tokens ih =>
      rw [List.cons_append]
      by_cases hkind : token.kind = .eof
      · rw [untilEof_cons_eof hkind, untilEof_cons_eof hkind]
      · rw [untilEof_cons hkind, untilEof_cons hkind, ih]

/-- Given enough fuel, both lists of tokens are read alike, be it as a program or as an
expression. -/
def ReadAlike (tokens others : List Token) : Prop :=
  ∀ fuel, enough tokens ≤ fuel → enough others ≤ fuel →
    parse fuel others = parse fuel tokens ∧
      parseExpression fuel others = parseExpression fuel tokens

theorem readAlike_of_untilEof {others : List Token} (same : untilEof others = untilEof tokens) :
    ReadAlike tokens others := by
  intro fuel hfuel hothers
  have hprogram : Program.ofTokens others = Program.ofTokens tokens := by
    rw [Program.ofTokens, Program.ofTokens, same]
  have hexpr : Expr.ofTokens others = Expr.ofTokens tokens := by
    rw [Expr.ofTokens, Expr.ofTokens, same]
  rw [parse_eq_ofTokens hothers, parse_eq_ofTokens hfuel, parseExpression_eq_ofTokens hothers,
    parseExpression_eq_ofTokens hfuel, hprogram, hexpr]
  exact ⟨rfl, rfl⟩

/-! ## Reading ends -/

/-- Where a parser is after some number of declarations of a program, and what it read. -/
inductive Reached (tokens : List Token) : Nat → Parser → Program → Prop
  | start : Reached tokens 0 (Parser.start tokens) []
  | declaration {count : Nat} {parser after : Parser} {program : Program}
      {statement : Option Stmt} :
      Reached tokens count parser program → parser.isAtEnd = false →
        declaration (enough tokens) parser = some (statement, after) →
          Reached tokens (count + 1) after (program ++ statement.toList)

namespace Reached

variable {count : Nat} {program : Program}

/-- No more declarations are read than tokens, and what was read and what the tokens ahead are
read as is the whole. -/
theorem stands (h : Reached tokens count parser program) :
    ∃ rest, Stands tokens parser rest ∧ parser.functionDepth = 0 ∧ count ≤ parser.current ∧
      Grammar.declarations (untilEof tokens).2 (untilEof tokens).1 =
        (program ++ (Grammar.declarations (untilEof tokens).2 rest).1,
          parser.errors ++ (Grammar.declarations (untilEof tokens).2 rest).2) := by
  induction h with
  | start => exact ⟨_, stands_start tokens, rfl, Nat.le_refl _, rfl⟩
  | @declaration count parser after program statement _ hmore hdeclaration ih =>
      obtain ⟨rest, h, hdepth, hcount, heq⟩ := ih
      rw [h.isAtEnd] at hmore
      cases rest with
      | nil => cases hmore
      | cons first later =>
          have hneeded := Nat.lt_of_succ_lt (h.lt_of_enough (Nat.le_refl _))
          have houtside : parser.insideFunction = false := by
            rw [insideFunction, hdepth]
            rfl
          obtain ⟨next, hnext, leads⟩ := follows_declaration hneeded h rfl
          rw [houtside] at hnext leads
          cases hnext.symm.trans hdeclaration
          have further := current_lt_of_declaration h leads
          refine ⟨_, leads.stands, leads.depth.trans hdepth, Nat.lt_of_le_of_lt hcount further, ?_⟩
          rw [heq, Grammar.declarations_eq_firstDeclaration, leads.found]
          simp only [List.append_assoc]

/-- From wherever a parser is, declarations are read until the tokens end. -/
theorem exists_stop (h : Reached tokens count parser program) :
    ∃ count parser program, Reached tokens count parser program ∧ parser.isAtEnd = true := by
  induction hleft : stop tokens - parser.current using Nat.strong_induction_on generalizing
    count parser program with
  | _ left ih =>
      cases hend : parser.isAtEnd with
      | true => exact ⟨count, parser, program, h, hend⟩
      | false =>
          obtain ⟨rest, hstands, _⟩ := h.stands
          have hneeded := Nat.lt_of_succ_lt (hstands.lt_of_enough (Nat.le_refl _))
          have hmore := hend
          rw [hstands.isAtEnd] at hmore
          cases rest with
          | nil => cases hmore
          | cons first later =>
              obtain ⟨next, hnext, leads⟩ := follows_declaration hneeded hstands rfl
              have further := current_lt_of_declaration hstands leads
              have within := leads.stands.within
              exact ih _ (by omega) (.declaration h hend hnext) rfl

/-- Where the tokens end, what was read is the verdict on them. -/
theorem ofTokens_eq (h : Reached tokens count parser program) (hend : parser.isAtEnd = true) :
    parser.current = stop tokens ∧ Program.ofTokens tokens = verdict program parser.errors := by
  obtain ⟨rest, hstands, _, _, heq⟩ := h.stands
  rw [hstands.isAtEnd, List.isEmpty_iff] at hend
  subst hend
  rw [Grammar.declarations, List.append_nil, List.append_nil] at heq
  rw [ofTokens_eq_verdict, heq]
  exact ⟨hstands.current_nil, rfl⟩

end Reached

/-- With enough fuel the rule ends wherever it is started up to the place. It moves the index
on, if at all, and not behind the place, and leaves as many functions open as there were. -/
def Ends {α : Type} (tokens : List Token) (stop : Nat) (rule : Nat → Parsing α) : Prop :=
  ∀ parser : Parser, parser.tokens = tokens → parser.current ≤ stop →
    ∃ outcome after, (∀ fuel, enough tokens ≤ fuel → rule fuel parser = some (outcome, after)) ∧
      after.tokens = tokens ∧ parser.current ≤ after.current ∧ after.current ≤ stop ∧
      after.functionDepth = parser.functionDepth

/-- With any fuel that is enough a run leads to the same place. -/
theorem exists_forall_fuel {β : Type} {run : Nat → Parser → Option (β × Parser)} {value : β}
    {errors : List SyntaxError}
    (h : ∀ fuel, enough tokens ≤ fuel → ∃ after, run fuel parser = some (value, after) ∧
      Leads tokens parser after rest errors) :
    ∃ after, (∀ fuel, enough tokens ≤ fuel → run fuel parser = some (value, after)) ∧
      Leads tokens parser after rest errors := by
  obtain ⟨after, _, leads⟩ := h _ (Nat.le_refl _)
  refine ⟨after, ?_, leads⟩
  intro fuel hfuel
  obtain ⟨last, hrun, hlast⟩ := h fuel hfuel
  rw [hrun, leads.unique hlast]

/-- What follows a rule for lists of tokens ends. -/
theorem Follows.ends {a : Bool} {α : Type} {rule : Nat → Parsing α}
    {attempt : Parser → (rest : List Token) → Attempt a α rest}
    (h : ∀ fuel parser rest, 16 * rest.length + 13 < fuel → Stands tokens parser rest →
      Follows tokens (rule fuel) parser (attempt parser rest).result) :
    Ends tokens (stop tokens) rule := by
  intro parser slice within
  have hstands : Stands tokens parser _ := ⟨slice, within, rfl⟩
  obtain ⟨after, hrule, leads⟩ := exists_forall_fuel fun fuel hfuel =>
    h fuel parser _ (hstands.lt_of_enough hfuel) hstands
  exact ⟨_, after, hrule, leads.stands.slice,
    hstands.current_le leads.stands (Attempt.length_unread_le _), leads.stands.within, leads.depth⟩

/-- Reading the tokens moves the index up to one place and takes nothing from behind it. -/
structure ReadsUpTo (tokens : List Token) (stop : Nat) : Prop where
  /-- No token before the place is for the end. -/
  before : ∀ index < stop, ∃ token, tokens[index]? = some token ∧ token.kind ≠ .eof
  /-- The one at the place is, if there is one. -/
  place : ∀ token, tokens[stop]? = some token → token.kind = .eof
  /-- The index is moved by passing a token, and so never behind the place. -/
  steps : ∀ parser : Parser, parser.tokens = tokens → parser.current ≤ stop →
    parser.current ≤ parser.advance.current ∧ parser.advance.current ≤ stop
  /-- Expressions end, wherever they are started. -/
  expressions : Ends tokens stop expression
  /-- So do statements. -/
  statements : Ends tokens stop statement
  /-- So do blocks, whatever was read of them before. -/
  blocks : ∀ read, Ends tokens stop fun fuel => block fuel read
  /-- A declaration moves the index on, whether it is read or recovered from. -/
  declarations : ∀ parser : Parser, parser.tokens = tokens → parser.current < stop →
    ∃ statement after,
      (∀ fuel, enough tokens ≤ fuel → declaration fuel parser = some (statement, after)) ∧
        after.tokens = tokens ∧ parser.current < after.current ∧ after.current ≤ stop ∧
        after.functionDepth = parser.functionDepth
  /-- As a program is read, the index is never behind the place, and the end is met there and
  nowhere before. -/
  stays : ∀ count parser program, Reached tokens count parser program →
    count ≤ parser.current ∧ parser.current ≤ stop ∧
      (parser.isAtEnd = true ↔ parser.current = stop)
  /-- It is read until the index is at the place. -/
  ends : ∃ count parser program, Reached tokens count parser program ∧ parser.current = stop ∧
    ∀ fuel, enough tokens ≤ fuel → parse fuel tokens = some (verdict program parser.errors)
  /-- The tokens are read as the list of those that count is. -/
  lists : ∀ fuel, enough tokens ≤ fuel → parse fuel tokens = some (Program.ofTokens tokens) ∧
    parseExpression fuel tokens = some (Expr.ofTokens tokens)
  /-- Tokens behind the place make no difference. -/
  prefixes : ∀ others, others.take (stop + 1) = tokens.take (stop + 1) → ReadAlike tokens others
  /-- Neither does a token for the end that is added to tokens without one. -/
  sentinel : (∀ token ∈ tokens, token.kind ≠ .eof) → ReadAlike tokens (tokens ++ [Token.eof 0])

/-- Whatever the tokens are, reading them ends, and it ends at the first token for the end
or behind the last token. -/
theorem readsUpTo_stop (tokens : List Token) : ReadsUpTo tokens (stop tokens) where
  before := by
    intro index inside
    obtain ⟨token, htoken, hkind, _⟩ := remaining_of_lt inside
    exact ⟨token, htoken, hkind⟩
  place := by
    intro token htoken
    have hend := kind_untilEof tokens
    rwa [← getElem?_stop, htoken, Option.getD_some] at hend
  steps := by
    intro parser slice within
    have h : Stands tokens parser _ := ⟨slice, within, rfl⟩
    exact h.current_advance
  expressions := Follows.ends fun _ _ _ hfuel => follows_expression (by omega)
  statements := Follows.ends fun fuel parser rest hfuel h =>
    (follows_statementRules tokens).2.1 parser.insideFunction rest fuel (by omega) parser h rfl
  blocks := fun read => Follows.ends fun fuel parser rest hfuel h =>
    (follows_statementRules tokens).2.2.1 parser.insideFunction rest fuel hfuel parser h rfl read
  declarations := by
    intro parser slice before
    have h : Stands tokens parser _ := ⟨slice, Nat.le_of_lt before, rfl⟩
    obtain ⟨first, later, hrest⟩ := h.exists_cons before
    rw [hrest] at h
    obtain ⟨after, hdeclaration, leads⟩ := exists_forall_fuel fun fuel hfuel =>
      follows_declaration (Nat.lt_of_succ_lt (h.lt_of_enough hfuel)) h rfl
    exact ⟨_, after, hdeclaration, leads.stands.slice, current_lt_of_declaration h leads,
      leads.stands.within, leads.depth⟩
  stays := by
    intro count parser program reached
    obtain ⟨rest, h, _, hcount, _⟩ := reached.stands
    exact ⟨hcount, h.within, h.isAtEnd_iff⟩
  ends := by
    obtain ⟨count, parser, program, reached, hend⟩ := (@Reached.start tokens).exists_stop
    obtain ⟨hstop, hlist⟩ := reached.ofTokens_eq hend
    refine ⟨count, parser, program, reached, hstop, ?_⟩
    intro fuel hfuel
    rw [parse_eq_ofTokens hfuel, hlist]
  lists := fun _ hfuel => ⟨parse_eq_ofTokens hfuel, parseExpression_eq_ofTokens hfuel⟩
  prefixes := fun _ same => readAlike_of_untilEof (untilEof_congr same)
  sentinel := fun _ => readAlike_of_untilEof (untilEof_append_eof tokens)

end Parser

end LoxLang
