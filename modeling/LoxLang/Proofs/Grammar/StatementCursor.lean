/-
# Statements read by an index

The rules for statements follow those for lists of tokens as well, if as many functions are
open as those are told of. A body that is read with one more function open leaves as many as
there were.

A declaration never gives up. It leads to where the next one is read, and as that is at fewer
tokens, the index has moved on.
-/

import LoxLang.Proofs.Grammar.ExpressionCursor
import LoxLang.Proofs.Grammar.StatementLocality

namespace LoxLang

namespace Parser

variable {tokens rest : List Token} {parser : Parser} {fuel : Nat}

/-- Whether a function is open. -/
def insideFunction (parser : Parser) : Bool :=
  decide (0 < parser.functionDepth)

theorem insideFunction_congr {after : Parser}
    (h : after.functionDepth = parser.functionDepth) :
    after.insideFunction = parser.insideFunction := by
  rw [insideFunction, insideFunction, h]

/-! ## Parts of statements -/

section

variable (hfuel : 16 * rest.length + 10 < fuel) (h : Stands tokens parser rest)
include hfuel h

theorem follows_expression :
    Follows tokens (expression fuel) parser
      (Grammar.expression (untilEof tokens).2 rest).result :=
  (follows_expressionRules tokens).1 rest fuel hfuel parser h

theorem follows_optional (stop : TokenKind) :
    Follows tokens (Parser.optional fuel stop) parser
      (Grammar.optional (untilEof tokens).2 stop rest).result := by
  have hoptional : Parser.optional fuel stop parser =
      (if startsWith stop rest then pure none else do return some (← expression fuel) :
        Parsing (Option Expr)) parser := by
    rw [Parser.optional, get_bind, h.check]
  rw [Grammar.optional]
  apply Follows.of_eq _ hoptional
  cases startsWith stop rest with
  | true => exact .done h none
  | false =>
      rw [if_neg Bool.false_ne_true, if_neg Bool.false_ne_true, Attempt.result_weaken]
      exact (follows_expression hfuel h).map some

theorem follows_terminated (make : Expr → Stmt) (fault : SyntaxFault) :
    Follows tokens (terminated fuel make fault) parser
      (Grammar.terminated (untilEof tokens).2 make fault rest).result := by
  apply (follows_expression hfuel h).andThen
  intro value unread left parser h _
  exact (Follows.expect h).map _

theorem follows_variableDeclaration :
    Follows tokens (variableDeclaration fuel) parser
      (Grammar.variableDeclaration (untilEof tokens).2 rest).result := by
  apply (Follows.expect h).andThen
  intro name unread left parser h _
  -- the semicolon is expected after the initial value, or right away if there is none
  have chosen : (do
      let initial ← initializer fuel
      let _ ← consume .semicolon .noSemicolonAfterVariable
      return .var name initial : Parsing Stmt) = (do
      if ← matchKind .equal then
        terminated fuel (fun initial => .var name (some initial)) .noSemicolonAfterVariable
      else
        let _ ← consume .semicolon .noSemicolonAfterVariable
        return .var name none) := by
    rw [initializer, bind_assoc]
    congr 1
    funext matched
    cases matched with
    | true => simp only [↓reduceIte, bind_assoc, pure_bind, terminated]
    | false => simp only [Bool.false_eq_true, ↓reduceIte, pure_bind]
  rw [chosen]
  apply Follows.chooseKind h
  · intro equals after short _ parser h _ _
    exact follows_terminated (by omega) h _ _
  · intro _
    exact (Follows.expect h).map _

theorem follows_returned :
    Follows tokens (returned fuel) parser
      (Grammar.returned (untilEof tokens).2 parser.insideFunction parser.previous rest).result := by
  have hvalue (after : Parser) (h : Stands tokens after rest) : Follows tokens (do
      let value ← Parser.optional fuel .semicolon
      let _ ← consume .semicolon .noSemicolonAfterReturnValue
      return Stmt.ret parser.previous value) after
      ((Grammar.optional (untilEof tokens).2 .semicolon rest).andThen fun value rest _ =>
        (expect (untilEof tokens).2 .semicolon .noSemicolonAfterReturnValue rest).map fun _ =>
          Stmt.ret parser.previous value).result := by
    apply (follows_optional hfuel h .semicolon).andThen
    intro value unread left parser h _
    exact (Follows.expect h).map _
  apply Follows.got
  by_cases houtside : parser.functionDepth = 0
  · rw [if_pos houtside, Grammar.returned, insideFunction, houtside]
    exact .noting h (hvalue _ (h.record _).stands)
  · rw [if_neg houtside, Grammar.returned, insideFunction,
      decide_eq_true (Nat.pos_of_ne_zero houtside), if_pos rfl, Attempt.noting_nil]
    exact hvalue parser h

theorem follows_condition (noOpening noClosing : SyntaxFault) :
    Follows tokens (condition fuel noOpening noClosing) parser
      (Grammar.condition (untilEof tokens).2 noOpening noClosing rest).result := by
  apply (Follows.expect h).andThen
  intro opening unread left parser h _
  apply (follows_expression (by omega) h).andThen
  intro test unread left parser h _
  exact (Follows.expect h).map _

theorem follows_initialClause :
    Follows tokens (initialClause fuel) parser
      (Grammar.initialClause (untilEof tokens).2 rest).result := by
  apply Follows.chooseKind h
  · intro semicolon after _ _ parser h _ _
    exact .done h none
  · intro _
    apply Follows.chooseKind h
    · intro word after short _ parser h _ _
      exact (follows_variableDeclaration (by omega) h).map some
    · intro _
      exact (follows_terminated hfuel h _ _).map some

theorem follows_clauses :
    Follows tokens (clauses fuel) parser (Grammar.clauses (untilEof tokens).2 rest).result := by
  apply (Follows.expect h).andThen
  intro opening unread left parser h _
  apply (follows_initialClause (by omega) h).andThen
  intro initial unread' left' parser h _
  apply (follows_optional (by omega) h .semicolon).andThen
  intro condition unread'' left'' parser h _
  apply (Follows.expect h).andThen
  intro semicolon unread''' left''' parser h _
  apply (follows_optional (by omega) h .rightParen).andThen
  intro step unread left parser h _
  exact (Follows.expect h).map _

end

theorem follows_parameters (count : Nat) (rest : List Token) (hfuel : rest.length < fuel)
    (before : List Token) (parser : Parser) (h : Stands tokens parser rest)
    (hcount : before.length = count) :
    Follows tokens (parameters fuel before) parser
      ((Grammar.parameters (untilEof tokens).2 count rest).map (before ++ ·)).result := by
  fun_induction Grammar.parameters (untilEof tokens).2 count rest
      generalizing fuel before parser with
  | case1 count rest ih =>
      obtain ⟨fuel, rfl⟩ := exists_fuel hfuel
      subst hcount
      rw [parameters]
      apply Follows.entries before h fun _ => Follows.expect
      intro value between left unread short parser h
      exact ih between left unread short (by omega) (before ++ [value]) parser h
        List.length_append

theorem follows_parameterList (hfuel : rest.length < fuel) (h : Stands tokens parser rest) :
    Follows tokens (parameterList fuel) parser
      (Grammar.parameterList (untilEof tokens).2 rest).result := by
  apply Follows.listed (fun _ names => names) h
  exact (follows_parameters 0 rest hfuel [] parser h rfl).of_nil_append

theorem follows_signature (hfuel : rest.length < fuel) (h : Stands tokens parser rest) :
    Follows tokens (signature fuel) parser
      (Grammar.signature (untilEof tokens).2 rest).result := by
  apply (Follows.expect h).andThen
  intro name unread left parser h _
  apply (Follows.expect h).andThen
  intro opening unread' left' parser h _
  apply (follows_parameterList (by omega) h).andThen
  intro names unread left parser h _
  exact (Follows.expect h).map _

/-! ## Statements and declarations -/

/-- The kind of a statement is told by its first word. -/
theorem statement_eq {first : Token} {after : List Token}
    (h : Stands tokens parser (first :: after)) : statement (fuel + 1) parser =
      if first.kind = .keyword .for then countingLoop fuel parser.advance
      else if first.kind = .keyword .if then branch fuel parser.advance
      else if first.kind = .keyword .print then
        terminated fuel .print .noSemicolonAfterValue parser.advance
      else if first.kind = .keyword .return then returned fuel parser.advance
      else if first.kind = .keyword .while then loop fuel parser.advance
      else if first.kind = .leftBrace then
        (do return .block (← block fuel []) : Parsing Stmt) parser.advance
      else terminated fuel .expression .noSemicolonAfterExpression parser := by
  rw [statement]
  simp only [matchKind_bind h]

/-- What a declaration is before recovery. -/
def declared (fuel : Nat) : Parsing Stmt := do
  if ← matchKind (.keyword .fun) then function fuel
  else if ← matchKind (.keyword .var) then variableDeclaration fuel
  else statement fuel

theorem declaration_eq (fuel : Nat) :
    declaration (fuel + 1) = recovering (declared fuel) := by
  rw [declaration]
  rfl

theorem declared_eq {first : Token} {after : List Token}
    (h : Stands tokens parser (first :: after)) : declared fuel parser =
      if first.kind = .keyword .fun then function fuel parser.advance
      else if first.kind = .keyword .var then variableDeclaration fuel parser.advance
      else statement fuel parser := by
  rw [declared]
  simp only [matchKind_bind h]

/-- What becomes of a declaration is the same as for the list, be it read or recovered from. -/
theorem recovering_of_follows {rule : Parsing Stmt} {recovered : Result Stmt}
    (h : Follows tokens rule parser recovered) :
    ∃ after, recovering rule parser = some ((Grammar.recovery recovered).statement, after) ∧
      Leads tokens parser after (Grammar.recovery recovered).rest
        (Grammar.recovery recovered).errors := by
  obtain ⟨after, hrule, leads⟩ := h
  cases recovered with
  | read statement rest errors =>
      refine ⟨after, ?_, leads⟩
      rw [recovering, hrule]
      rfl
  | gaveUp fatal rest errors =>
      have kept := leads.stands.record fatal
      have resumed := leads.trans (kept.trans kept.stands.synchronize)
      rw [List.append_nil] at resumed
      refine ⟨_, ?_, resumed⟩
      rw [recovering, hrule]
      rfl

/-- A body is read with one more function open, of which nothing is left. -/
theorem follows_inFunction {body : Parsing (List Stmt)} {result : Result (List Stmt)}
    (h : Follows tokens body { parser with functionDepth := parser.functionDepth + 1 } result) :
    Follows tokens (inFunction body) parser result := by
  obtain ⟨after, hbody, ⟨slice, within, ahead⟩, found, depth⟩ := h
  refine ⟨{ after with functionDepth := after.functionDepth - 1 }, ?_,
    ⟨slice, within, ahead⟩, found, congrArg (· - 1) depth⟩
  rw [inFunction, hbody]
  rfl

/-- A block that is closed at once. -/
theorem block_closed {closing : Token} {after : List Token}
    (h : Stands tokens parser (closing :: after)) (hclosing : closing.kind = .rightBrace)
    (before : List Stmt) :
    block (fuel + 1) before parser = some (.ok before, parser.advance) := by
  rw [block]
  dsimp only
  rw [h.check, startsWith, hclosing, beq_self_eq_true, Bool.true_or, if_pos rfl,
    consume_of_kind h hclosing]
  rfl

/-- A block that is never closed. -/
theorem block_unclosed (h : Stands tokens parser []) (before : List Stmt) :
    block (fuel + 1) before parser =
      some (.error ⟨.noBraceAfterBlock, (untilEof tokens).2⟩, parser) := by
  rw [block]
  dsimp only
  rw [h.isAtEnd, List.isEmpty_nil, Bool.or_true, if_pos rfl,
    consume_of_noneAhead h (noneAhead_nil _)]
  rfl

/-- A block that goes on with a declaration. -/
theorem block_declaration {first : Token} {after : List Token} {statement : Option Stmt}
    {next : Parser} (h : Stands tokens parser (first :: after)) (hfirst : first.kind ≠ .rightBrace)
    (hdeclaration : declaration fuel parser = some (statement, next)) (before : List Stmt) :
    block (fuel + 1) before parser = block fuel (before ++ statement.toList) next := by
  rw [block]
  dsimp only
  rw [h.check, startsWith, beq_false_of_ne hfirst, h.isAtEnd, List.isEmpty_cons,
    Bool.or_false, if_neg Bool.false_ne_true, hdeclaration]
  rfl

/-- With enough fuel, the rules for statements follow those for lists of tokens. -/
theorem follows_statementRules (tokens : List Token) :
    (∀ inside first after fuel, 16 * (first :: after).length + 11 < fuel → ∀ parser,
      Stands tokens parser (first :: after) → parser.insideFunction = inside →
        Follows tokens (declared fuel) parser
          (Grammar.declared (untilEof tokens).2 inside (first :: after)).result) ∧
    (∀ inside rest fuel, 16 * rest.length + 11 < fuel → ∀ parser, Stands tokens parser rest →
      parser.insideFunction = inside → Follows tokens (statement fuel) parser
        (Grammar.statement (untilEof tokens).2 inside rest).result) ∧
    (∀ inside rest fuel, 16 * rest.length + 13 < fuel → ∀ parser, Stands tokens parser rest →
      parser.insideFunction = inside → ∀ before, Follows tokens (block fuel before) parser
        ((Grammar.block (untilEof tokens).2 inside rest).map (before ++ ·)).result) ∧
    (∀ inside rest fuel, 16 * rest.length + 11 < fuel → ∀ parser, Stands tokens parser rest →
      parser.insideFunction = inside → Follows tokens (loop fuel) parser
        (Grammar.loop (untilEof tokens).2 inside rest).result) ∧
    (∀ inside rest fuel, 16 * rest.length + 11 < fuel → ∀ parser, Stands tokens parser rest →
      parser.insideFunction = inside → Follows tokens (branch fuel) parser
        (Grammar.branch (untilEof tokens).2 inside rest).result) ∧
    (∀ inside rest fuel, 16 * rest.length + 11 < fuel → ∀ parser, Stands tokens parser rest →
      parser.insideFunction = inside → Follows tokens (countingLoop fuel) parser
        (Grammar.countingLoop (untilEof tokens).2 inside rest).result) ∧
    (∀ rest fuel, 16 * rest.length + 11 < fuel → ∀ parser, Stands tokens parser rest →
      Follows tokens (function fuel) parser
        (Grammar.function (untilEof tokens).2 rest).result) := by
  have passed {first : Token} {after : List Token} {parser : Parser} {inside : Bool}
      (h : Stands tokens parser (first :: after)) (hinside : parser.insideFunction = inside) :
      parser.advance.insideFunction = inside :=
    (insideFunction_congr h.advance.depth).trans hinside
  refine Grammar.declaration.mutual_induct (untilEof tokens).2 _ _ _ _ _ _ _ ?declaration ?atEnd
    ?counting ?branching ?printing ?returning ?looping ?brace ?expression ?blockAtEnd ?blockEnd
    ?blockMore ?loop ?branch ?countingLoop ?function
  case declaration =>
    intro inside first after ihfunction ihstatement fuel hfuel parser h hinside
    have hshorter := hfuel
    rw [List.length_cons] at hshorter
    by_cases hfun : first.kind = .keyword .fun
    · rw [Grammar.declared_fun _ hfun, Attempt.result_afterToken]
      exact .of_advance h (by rw [declared_eq h, if_pos hfun])
        (ihfunction fuel (by omega) _ h.advance.stands)
    by_cases hvar : first.kind = .keyword .var
    · rw [Grammar.declared_var _ hvar, Attempt.result_afterToken]
      exact .of_advance h (by rw [declared_eq h, if_neg hfun, if_pos hvar])
        (follows_variableDeclaration (by omega) h.advance.stands)
    rw [Grammar.declared_statement _ hfun hvar]
    exact (ihstatement fuel hfuel parser h hinside).of_eq
      (by rw [declared_eq h, if_neg hfun, if_neg hvar])
  case atEnd =>
    intro inside fuel hfuel parser h hinside
    obtain ⟨fuel, rfl⟩ := exists_fuel hfuel
    have hstatement : statement (fuel + 1) parser =
        terminated fuel .expression .noSemicolonAfterExpression parser := by
      rw [statement]
      simp only [matchKind_bind_nil h]
    rw [Grammar.statement]
    exact (follows_terminated (by omega) h _ _).of_eq hstatement
  case counting =>
    intro inside word after hword ih fuel hfuel parser h hinside
    obtain ⟨fuel, rfl⟩ := exists_fuel hfuel
    rw [List.length_cons] at hfuel
    rw [Grammar.statement_for _ hword, Attempt.result_afterToken]
    exact .of_advance h (by simp [statement_eq h, hword])
      (ih fuel (by omega) _ h.advance.stands (passed h hinside))
  case branching =>
    intro inside word after hword ih fuel hfuel parser h hinside
    obtain ⟨fuel, rfl⟩ := exists_fuel hfuel
    rw [List.length_cons] at hfuel
    rw [Grammar.statement_if _ hword, Attempt.result_afterToken]
    exact .of_advance h (by simp [statement_eq h, hword])
      (ih fuel (by omega) _ h.advance.stands (passed h hinside))
  case printing =>
    intro inside word after hword fuel hfuel parser h hinside
    obtain ⟨fuel, rfl⟩ := exists_fuel hfuel
    rw [List.length_cons] at hfuel
    have hprinted : Follows tokens (terminated fuel .print .noSemicolonAfterValue)
        parser.advance _ := follows_terminated (by omega) h.advance.stands _ _
    rw [Grammar.statement_print _ hword, Attempt.result_afterToken]
    exact .of_advance h (by simp [statement_eq h, hword]) hprinted
  case returning =>
    intro inside word after hword fuel hfuel parser h hinside
    obtain ⟨fuel, rfl⟩ := exists_fuel hfuel
    rw [List.length_cons] at hfuel
    have hreturned : Follows tokens (returned fuel) parser.advance _ :=
      follows_returned (by omega) h.advance.stands
    rw [passed h hinside, h.previous_advance] at hreturned
    rw [Grammar.statement_return _ hword, Attempt.result_afterToken]
    exact .of_advance h (by simp [statement_eq h, hword]) hreturned
  case looping =>
    intro inside word after hword ih fuel hfuel parser h hinside
    obtain ⟨fuel, rfl⟩ := exists_fuel hfuel
    rw [List.length_cons] at hfuel
    rw [Grammar.statement_while _ hword, Attempt.result_afterToken]
    exact .of_advance h (by simp [statement_eq h, hword])
      (ih fuel (by omega) _ h.advance.stands (passed h hinside))
  case brace =>
    intro inside opening after hopening ih fuel hfuel parser h hinside
    obtain ⟨fuel, rfl⟩ := exists_fuel hfuel
    rw [List.length_cons] at hfuel
    have hblock :=
      (ih fuel (by omega) _ h.advance.stands (passed h hinside) []).of_nil_append
    rw [Grammar.statement_block _ hopening, Attempt.result_afterToken]
    exact .of_advance h (by simp [statement_eq h, hopening]) (hblock.map _)
  case expression =>
    intro inside first after hfor hif hprint hreturn hwhile hbrace fuel hfuel parser h hinside
    obtain ⟨fuel, rfl⟩ := exists_fuel hfuel
    have hstatement : statement (fuel + 1) parser =
        terminated fuel .expression .noSemicolonAfterExpression parser := by
      rw [statement_eq h, if_neg hfor, if_neg hif, if_neg hprint, if_neg hreturn, if_neg hwhile,
        if_neg hbrace]
    rw [Grammar.statement_expression _ hfor hif hprint hreturn hwhile hbrace]
    exact (follows_terminated (by omega) h _ _).of_eq hstatement
  case blockAtEnd =>
    intro inside fuel hfuel parser h hinside before
    obtain ⟨fuel, rfl⟩ := exists_fuel hfuel
    rw [Attempt.result_map, Grammar.result_block_nil]
    exact ⟨parser, block_unclosed h before, h.leads⟩
  case blockEnd =>
    intro inside closing after hclosing fuel hfuel parser h hinside before
    obtain ⟨fuel, rfl⟩ := exists_fuel hfuel
    have hresult : (Grammar.block (untilEof tokens).2 inside (closing :: after)).result =
        .read [] after [] := by
      rw [Grammar.block, if_pos hclosing]
      rfl
    rw [Attempt.result_map, hresult, Result.map, List.append_nil]
    exact ⟨parser.advance, block_closed h hclosing before, h.advance⟩
  case blockMore =>
    intro inside first after hfirst statement rest errors shorter heq ihfirst ihrest fuel hfuel
      parser h hinside before
    obtain ⟨fuel, rfl⟩ := exists_fuel hfuel
    obtain ⟨fuel, rfl⟩ := exists_fuel (Nat.lt_of_succ_lt_succ hfuel)
    obtain ⟨next, hdeclaration, leads⟩ :=
      recovering_of_follows (ihfirst fuel (by omega) parser h hinside)
    have hrecovery : Grammar.recovery
        (Grammar.declared (untilEof tokens).2 inside (first :: after)).result =
          ⟨statement, rest, errors⟩ := Grammar.firstDeclaration_eq heq
    rw [hrecovery, ← declaration_eq] at hdeclaration
    rw [hrecovery] at leads
    have hrest := ihrest (fuel + 1) (by omega) next leads.stands
      ((insideFunction_congr leads.depth).trans hinside) (before ++ statement.toList)
    have hblock := hrest.of_leads leads (block_declaration h hfirst hdeclaration before)
    have hresult : ((Grammar.block (untilEof tokens).2 inside (first :: after)).map
        (before ++ ·)).result =
          ((Grammar.block (untilEof tokens).2 inside rest).map
            (before ++ statement.toList ++ ·)).result.noting errors := by
      rw [Attempt.result_map, Grammar.result_block_cons hfirst, Grammar.firstDeclaration_eq heq,
        Attempt.result_map]
      cases (Grammar.block (untilEof tokens).2 inside rest).result <;>
        simp [Result.map, Result.noting]
    rw [hresult]
    exact hblock
  case loop =>
    intro inside rest ihbody fuel hfuel parser h hinside
    obtain ⟨fuel, rfl⟩ := exists_fuel hfuel
    rw [loop, Grammar.loop]
    apply (follows_condition (by omega) h _ _).andThen
    intro test unread left after h hdepth
    have shorter : unread.length < rest.length := left
    exact (ihbody unread left fuel (by omega) after h
      ((insideFunction_congr hdepth).trans hinside)).map _
  case branch =>
    intro inside rest ihconsequent ihalternative fuel hfuel parser h hinside
    obtain ⟨fuel, rfl⟩ := exists_fuel hfuel
    rw [branch, Grammar.branch]
    apply (follows_condition (by omega) h _ _).andThen
    intro test unread left after h hdepth
    have shorter : unread.length < rest.length := left
    have hinside := (insideFunction_congr hdepth).trans hinside
    apply (ihconsequent unread left fuel (by omega) after h hinside).andThen
    intro consequent unread' within after h hdepth
    have hinside := (insideFunction_congr hdepth).trans hinside
    apply Follows.chooseKind h
    · intro word behind short _ after h _ hdepth
      have hinside := (insideFunction_congr hdepth).trans hinside
      exact (ihalternative unread left unread' within behind short fuel (by omega) after h
        hinside).map _
    · intro _
      exact .done h _
  case countingLoop =>
    intro inside rest ihbody fuel hfuel parser h hinside
    obtain ⟨fuel, rfl⟩ := exists_fuel hfuel
    rw [countingLoop, Grammar.countingLoop]
    apply (follows_clauses (by omega) h).andThen
    intro parts unread left after h hdepth
    have shorter : unread.length < rest.length := left
    exact (ihbody unread left fuel (by omega) after h
      ((insideFunction_congr hdepth).trans hinside)).map _
  case function =>
    intro rest ihbody fuel hfuel parser h
    obtain ⟨fuel, rfl⟩ := exists_fuel hfuel
    rw [function, Grammar.function]
    apply (follows_signature (by omega) h).andThen
    rintro ⟨name, names⟩ unread left after ⟨slice, within, ahead⟩ _
    have shorter : unread.length < rest.length := left
    have hblock := ihbody unread left fuel (by omega)
      { after with functionDepth := after.functionDepth + 1 } ⟨slice, within, ahead⟩
      (decide_eq_true (Nat.succ_pos _)) []
    exact (follows_inFunction hblock.of_nil_append).map _

end Parser

end LoxLang
