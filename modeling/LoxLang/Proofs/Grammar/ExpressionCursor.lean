/-
# Expressions read by an index

Wherever a parser stands, its rules for expressions come to what the rules for lists of tokens
make of the tokens before it. So they end, as those do, and the measure by which those end tells
how much fuel is enough.
-/

import LoxLang.Proofs.Grammar.Cursor
import LoxLang.Proofs.Grammar.ExpressionLocality

namespace LoxLang

namespace Parser

variable {tokens rest : List Token} {parser : Parser}

theorem follows_assigned (h : Stands tokens parser rest) (target value : Expr) (equals : Token) :
    Follows tokens (match target with
      | .variable name => pure (.assign name value)
      | _ => do
        note .invalidAssignmentTarget equals
        return target) parser
      (Grammar.assigned target equals value : Attempt false Expr rest).result := by
  have noted : Follows tokens (do note .invalidAssignmentTarget equals; return target) parser
      ((Attempt.done target : Attempt false Expr rest).noting
        [⟨.invalidAssignmentTarget, equals⟩]).result :=
    .noting h (.done (h.record _).stands target)
  cases target with
  | «variable» name => exact .done h _
  | _ => exact noted

variable {fuel : Nat}

/-- Constants, names and opening parentheses are told by the next token. -/
theorem primary_eq {token : Token} (h : Stands tokens parser (token :: rest)) :
    primary (fuel + 1) parser =
      if token.kind = .keyword .false then
        (pure (.literal (.bool false)) : Parsing Expr) parser.advance
      else if token.kind = .keyword .true then
        (pure (.literal (.bool true)) : Parsing Expr) parser.advance
      else if token.kind = .keyword .nil then
        (pure (.literal .nil) : Parsing Expr) parser.advance
      else if token.kind ∈ [.number, .string] then constant token parser.advance
      else if token.kind = .identifier then
        (pure (.variable token) : Parsing Expr) parser.advance
      else if token.kind = .leftParen then (do
        let inner ← expression fuel
        let _ ← consume .rightParen .noParenAfterExpression
        return .grouping inner : Parsing Expr) parser.advance
      else (throw ⟨.noExpression, token⟩ : Parsing Expr) parser := by
  rw [primary]
  simp only [matchKind_bind h, matchAny_bind h, get_bind, h.previous_advance, h.peek, nextOr]

/-- A number or a string without a value is passed before the rule gives up. -/
theorem follows_malformed {token : Token} (h : Stands tokens parser (token :: rest))
    (hkind : token.kind = .number ∨ token.kind = .string) (hpayload : token.payload = none) :
    Follows tokens (primary (fuel + 1)) parser
      (Grammar.primary (untilEof tokens).2 (token :: rest)).result := by
  have hprimary : primary (fuel + 1) parser =
      (throw ⟨.malformedLiteral, token⟩ : Parsing Expr) parser.advance := by
    have hconstant : constant token = throw ⟨.malformedLiteral, token⟩ := by
      rw [constant, hpayload]
    rcases hkind with hkind | hkind <;> simp [primary_eq h, hkind, hconstant]
  rw [Grammar.result_malformed hkind hpayload]
  exact ⟨parser.advance, hprimary, h.advance⟩

/-- Where some fuel is needed there is a unit that may be taken away. -/
theorem exists_fuel {needed : Nat} (h : needed < fuel) : ∃ less, fuel = less + 1 :=
  Nat.exists_eq_add_one.mpr (Nat.zero_lt_of_lt h)

/-- With enough fuel, the rules for expressions follow those for lists of tokens. The fuel that
is enough is measured as the lists are, whose rules end by it. -/
theorem follows_expressionRules (tokens : List Token) :
    (∀ rest fuel, 16 * rest.length + 10 < fuel → ∀ parser, Stands tokens parser rest →
      Follows tokens (expression fuel) parser
        (Grammar.expression (untilEof tokens).2 rest).result) ∧
    (∀ levels rest fuel, 16 * rest.length + levels.length + 3 < fuel → ∀ parser,
      Stands tokens parser rest → Follows tokens (chain fuel levels) parser
        (Grammar.chain (untilEof tokens).2 levels rest).result) ∧
    (∀ tier tighter left rest fuel, 16 * rest.length + tighter.length + 3 < fuel → ∀ parser,
      Stands tokens parser rest → Follows tokens (operands fuel tier tighter left) parser
        (Grammar.operands (untilEof tokens).2 tier tighter left rest).result) ∧
    (∀ rest fuel, 16 * rest.length + 2 < fuel → ∀ parser, Stands tokens parser rest →
      Follows tokens (unary fuel) parser (Grammar.unary (untilEof tokens).2 rest).result) ∧
    (∀ rest fuel, 16 * rest.length + 1 < fuel → ∀ parser, Stands tokens parser rest →
      Follows tokens (application fuel) parser
        (Grammar.application (untilEof tokens).2 rest).result) ∧
    (∀ callee rest fuel, 16 * rest.length < fuel → ∀ parser, Stands tokens parser rest →
      Follows tokens (calls fuel callee) parser
        (Grammar.calls (untilEof tokens).2 callee rest).result) ∧
    (∀ callee rest fuel, 16 * rest.length + 12 < fuel → ∀ parser, Stands tokens parser rest →
      Follows tokens (callOf fuel callee) parser
        (Grammar.callOf (untilEof tokens).2 callee rest).result) ∧
    (∀ count rest fuel, 16 * rest.length + 11 < fuel → ∀ before parser,
      Stands tokens parser rest → before.length = count →
        Follows tokens (arguments fuel before) parser
          ((Grammar.arguments (untilEof tokens).2 count rest).map (before ++ ·)).result) ∧
    (∀ rest fuel, 16 * rest.length < fuel → ∀ parser, Stands tokens parser rest →
      Follows tokens (primary fuel) parser
        (Grammar.primary (untilEof tokens).2 rest).result) := by
  refine Grammar.expression.mutual_induct _ _ _ _ _ _ _ _ _ ?expression ?innermost ?tier
    ?operands ?unary ?application ?calls ?callOf ?arguments ?atEnd ?false ?true ?nil ?number
    ?badNumber ?string ?badString ?name ?grouping ?other
  case expression =>
    intro rest ihchain ihvalue fuel hfuel parser h
    obtain ⟨fuel, rfl⟩ := exists_fuel hfuel
    rw [expression, Grammar.expression]
    apply (ihchain fuel (by rw [length_tiers]; omega) parser h).andThen
    intro target unread left parser h _
    apply Follows.chooseKind h
    · intro equals after short _ parser h hprevious _
      apply Follows.got
      rw [hprevious]
      apply (ihvalue unread left after short fuel (by omega) parser h).andThen
      intro value unread _ parser h _
      exact follows_assigned h target value equals
    · intro _
      exact .done h target
  case innermost =>
    intro rest ih fuel hfuel parser h
    obtain ⟨fuel, rfl⟩ := exists_fuel hfuel
    rw [List.length_nil] at hfuel
    rw [chain, Grammar.chain]
    exact ih fuel (by omega) parser h
  case tier =>
    intro rest tier tighter ihleft ihrest fuel hfuel parser h
    obtain ⟨fuel, rfl⟩ := exists_fuel hfuel
    rw [List.length_cons] at hfuel
    rw [chain, Grammar.chain]
    apply (ihleft fuel (by omega) parser h).andThen
    intro left unread short parser h _
    exact ihrest left unread short fuel (by omega) parser h
  case operands =>
    intro tier tighter left rest ihright ihrest fuel hfuel parser h
    obtain ⟨fuel, rfl⟩ := exists_fuel hfuel
    rw [operands, Grammar.operands]
    apply Follows.choose h
    · intro operator after short _ parser h hprevious _
      apply Follows.got
      rw [hprevious]
      apply (ihright after short fuel (by omega) parser h).andThen
      intro right unread hshort parser h _
      exact ihrest operator after short right unread hshort fuel (by omega) parser h
    · intro _
      exact .done h left
  case unary =>
    intro rest ihoperand ihcall fuel hfuel parser h
    obtain ⟨fuel, rfl⟩ := exists_fuel hfuel
    rw [unary, Grammar.unary]
    apply Follows.choose h
    · intro operator after short _ parser h hprevious _
      apply Follows.got
      rw [hprevious]
      exact (ihoperand after short fuel (by omega) parser h).map _
    · intro _
      exact ihcall fuel (by omega) parser h
  case application =>
    intro rest ihcallee ihcalls fuel hfuel parser h
    obtain ⟨fuel, rfl⟩ := exists_fuel hfuel
    rw [application, Grammar.application]
    apply (ihcallee fuel (by omega) parser h).andThen
    intro callee unread left parser h _
    exact ihcalls callee unread left fuel (by omega) parser h
  case calls =>
    intro callee rest ihcall ihmore fuel hfuel parser h
    obtain ⟨fuel, rfl⟩ := exists_fuel hfuel
    rw [calls, Grammar.calls]
    apply Follows.chooseKind h
    · intro opening after short _ parser h _ _
      apply (ihcall after short fuel (by omega) parser h).andThen
      intro call unread left parser h _
      exact ihmore after short call unread left fuel (by omega) parser h
    · intro _
      exact .done h callee
  case callOf =>
    intro callee rest iharguments fuel hfuel parser h
    obtain ⟨fuel, rfl⟩ := exists_fuel hfuel
    rw [callOf, Grammar.callOf]
    apply Follows.listed (Expr.call callee) h
    exact (iharguments fuel (by omega) [] parser h rfl).of_nil_append
  case arguments =>
    intro count rest ihfirst ihothers fuel hfuel before parser h hcount
    obtain ⟨fuel, rfl⟩ := exists_fuel hfuel
    subst hcount
    rw [arguments, Grammar.arguments]
    apply Follows.entries before h (ihfirst fuel (by omega))
    intro value between left unread short parser h
    exact ihothers between left unread short fuel (by omega) (before ++ [value]) parser h
      List.length_append
  case atEnd =>
    intro fuel hfuel parser h
    obtain ⟨fuel, rfl⟩ := exists_fuel hfuel
    have hprimary : primary (fuel + 1) parser =
        (throw ⟨.noExpression, (untilEof tokens).2⟩ : Parsing Expr) parser := by
      rw [primary]
      simp only [matchKind_bind_nil h, matchAny_bind_nil h, get_bind, h.peek, nextOr]
    rw [Grammar.primary]
    exact (Follows.giveUp h _).of_eq hprimary
  case false =>
    intro token after hkind fuel hfuel parser h
    obtain ⟨fuel, rfl⟩ := exists_fuel hfuel
    rw [Grammar.result_primary (.false hkind)]
    exact .passed h (by simp [primary_eq h, hkind])
  case true =>
    intro token after hkind fuel hfuel parser h
    obtain ⟨fuel, rfl⟩ := exists_fuel hfuel
    rw [Grammar.result_primary (.true hkind)]
    exact .passed h (by simp [primary_eq h, hkind])
  case nil =>
    intro token after hkind fuel hfuel parser h
    obtain ⟨fuel, rfl⟩ := exists_fuel hfuel
    rw [Grammar.result_primary (.nil hkind)]
    exact .passed h (by simp [primary_eq h, hkind])
  case number =>
    intro token after hkind payload hpayload fuel hfuel parser h
    obtain ⟨fuel, rfl⟩ := exists_fuel hfuel
    rw [Grammar.result_primary (.constant (.inl hkind) hpayload)]
    exact .passed h (by simp [primary_eq h, hkind, constant, hpayload])
  case badNumber =>
    intro token after hkind hpayload fuel hfuel parser h
    obtain ⟨fuel, rfl⟩ := exists_fuel hfuel
    exact follows_malformed h (.inl hkind) hpayload
  case string =>
    intro token after hkind payload hpayload fuel hfuel parser h
    obtain ⟨fuel, rfl⟩ := exists_fuel hfuel
    rw [Grammar.result_primary (.constant (.inr hkind) hpayload)]
    exact .passed h (by simp [primary_eq h, hkind, constant, hpayload])
  case badString =>
    intro token after hkind hpayload fuel hfuel parser h
    obtain ⟨fuel, rfl⟩ := exists_fuel hfuel
    exact follows_malformed h (.inr hkind) hpayload
  case name =>
    intro token after hkind fuel hfuel parser h
    obtain ⟨fuel, rfl⟩ := exists_fuel hfuel
    rw [Grammar.result_primary (.name hkind)]
    exact .passed h (by simp [primary_eq h, hkind])
  case grouping =>
    intro opening after hopening ih fuel hfuel parser h
    obtain ⟨fuel, rfl⟩ := exists_fuel hfuel
    rw [List.length_cons] at hfuel
    have hprimary : primary (fuel + 1) parser = (do
        let inner ← expression fuel
        let _ ← consume .rightParen .noParenAfterExpression
        return .grouping inner : Parsing Expr) parser.advance := by
      simp [primary_eq h, hopening]
    rw [Grammar.primary_grouping _ hopening, Attempt.result_afterToken]
    apply Follows.of_advance h hprimary
    apply (ih fuel (by omega) _ h.advance.stands).andThen
    intro inner unread left parser h _
    exact (Follows.expect h).map _
  case other =>
    intro token after hfalse htrue hnil hnumber hstring hidentifier hparen fuel hfuel parser h
    obtain ⟨fuel, rfl⟩ := exists_fuel hfuel
    have hprimary : primary (fuel + 1) parser =
        (throw ⟨.noExpression, token⟩ : Parsing Expr) parser := by
      have hconstant : token.kind ∉ [.number, .string] := by
        simpa using And.intro hnumber hstring
      rw [primary_eq h, if_neg hfalse, if_neg htrue, if_neg hnil, if_neg hconstant,
        if_neg hidentifier, if_neg hparen]
    have hresult : (Grammar.primary (untilEof tokens).2 (token :: after)).result =
        .gaveUp ⟨.noExpression, token⟩ (token :: after) [] := by
      rw [Grammar.primary]
      split <;> first | contradiction | rfl
    rw [hresult]
    exact (Follows.giveUp h _).of_eq hprimary

end Parser

end LoxLang
