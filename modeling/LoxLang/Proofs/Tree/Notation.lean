/-
# How expressions are written

Every expression without groupings can be written down: its tokens in order, with
parentheses around an operand where it would otherwise be read as something else. Where they
are needed is told by strengths. An operator asks its operands to bind at least as strongly
as it does, and the one on its right more strongly, since chains are read from the left.
What binds less strongly than is asked stands in parentheses, and nothing else does.

An expression that is read back from there has groupings for the parentheses. It is compared
with the one that was written once these are erased, along with the lines of the tokens and
the tokens that close calls.
-/

import LoxLang.Proofs.Grammar.Regularity
import LoxLang.Proofs.Token.Spacing

namespace LoxLang

open Spelling

/-! ## Strengths -/

/-- How strongly a binary operator binds. -/
def TokenKind.strength : TokenKind → Nat
  | .keyword .or => 1
  | .keyword .and => 2
  | .bangEqual | .equalEqual => 3
  | .greater | .greaterEqual | .less | .lessEqual => 4
  | .minus | .plus => 5
  | .slash | .star => 6
  | _ => 0

/-- How strongly an expression binds: not at all if it is an assignment, as its operator if
it is a binary one, and most strongly if nothing in it can be torn apart. -/
def Expr.strength : Expr → Nat
  | .assign _ _ => 0
  | .binary _ operator _ | .logical _ operator _ => operator.kind.strength
  | .unary _ _ => 7
  | .call _ _ _ => 8
  | .literal _ | .variable _ | .grouping _ => 9

/-! ## Tokens -/

/-- The token with no value that is spelled so. -/
def Token.mark (kind : TokenKind) (lexeme : String) : Token :=
  ⟨kind, lexeme, none, 0⟩

/-- The token of a constant. The text of a number or a string is left open. -/
def Literal.token : Literal → Token
  | .nil => .mark (.keyword .nil) "nil"
  | .bool true => .mark (.keyword .true) "true"
  | .bool false => .mark (.keyword .false) "false"
  | .number value => ⟨.number, "", some (.number value), 0⟩
  | .string contents => ⟨.string, "", some (.text contents), 0⟩

namespace Notation

def opening : Token :=
  .mark .leftParen "("

def closing : Token :=
  .mark .rightParen ")"

def comma : Token :=
  .mark .comma ","

def equals : Token :=
  .mark .equal "="

/-- The tokens of an expression of the given strength, in parentheses if more is asked. -/
def enclosed (asked strength : Nat) (tokens : List Token) : List Token :=
  if strength < asked then opening :: (tokens ++ [closing]) else tokens

end Notation

open Notation

mutual

/-- The tokens that the expression is written with. -/
def Expr.tokens : Expr → List Token
  | .literal value => [value.token]
  | .grouping inner => opening :: (inner.tokens ++ [closing])
  | .unary operator operand => operator :: enclosed 7 operand.strength operand.tokens
  | .binary left operator right | .logical left operator right =>
    enclosed operator.kind.strength left.strength left.tokens ++
      operator :: enclosed (operator.kind.strength + 1) right.strength right.tokens
  | .variable name => [name]
  | .assign name value => name :: equals :: value.tokens
  | .call callee _ arguments =>
    enclosed 8 callee.strength callee.tokens ++
      opening :: (Expr.tokensOfArguments arguments ++ [closing])

/-- The tokens of the expressions, with commas between them. -/
def Expr.tokensOfArguments : List Expr → List Token
  | [] => []
  | [last] => last.tokens
  | first :: next :: others =>
    first.tokens ++ comma :: Expr.tokensOfArguments (next :: others)

end

/-! ## What can be written -/

/-- The token is as it is scanned from its own text, up to its line. -/
abbrev Token.Genuine (token : Token) : Prop :=
  Spells token.lexeme.toList token

/-- The constant has a text: a string contains no quote, and a number is the value of some
digits. -/
def Literal.Writable : Literal → Prop
  | .nil | .bool _ => True
  | .number value => ∃ text, Lexeme .number text ∧ (Decimal.ofDigits text).toFloat = value
  | .string contents => '"' ∉ contents.toList

/-- The expression is regular, has no groupings, and what it holds can be spelled. -/
inductive Expr.Plain : Expr → Prop
  | literal {value : Literal} :
      value.Writable → Plain (.literal value)
  | «variable» {name : Token} :
      name.kind = .identifier → name.Genuine → Plain (.variable name)
  | assign {name : Token} {value : Expr} :
      name.kind = .identifier → name.Genuine → Plain value → Plain (.assign name value)
  | unary {operator : Token} {operand : Expr} :
      operator.kind = .bang ∨ operator.kind = .minus → operator.Genuine → Plain operand →
      Plain (.unary operator operand)
  | binary {left right : Expr} {operator : Token} :
      operator.kind ∈ binaryOperators → operator.Genuine → Plain left → Plain right →
      Plain (.binary left operator right)
  | logical {left right : Expr} {operator : Token} :
      operator.kind = .keyword .and ∨ operator.kind = .keyword .or → operator.Genuine →
      Plain left → Plain right → Plain (.logical left operator right)
  | call {callee : Expr} {paren : Token} {arguments : List Expr} :
      Plain callee → (∀ argument ∈ arguments, Plain argument) → arguments.length ≤ 255 →
      Plain (.call callee paren arguments)

mutual

/-- The expression without groupings, without the lines of its tokens, and with the same token
at the end of every call. -/
def Expr.stripped : Expr → Expr
  | .literal value => .literal value
  | .grouping inner => inner.stripped
  | .unary operator operand => .unary (operator.renumber fun _ => 0) operand.stripped
  | .binary left operator right =>
    .binary left.stripped (operator.renumber fun _ => 0) right.stripped
  | .logical left operator right =>
    .logical left.stripped (operator.renumber fun _ => 0) right.stripped
  | .variable name => .variable (name.renumber fun _ => 0)
  | .assign name value => .assign (name.renumber fun _ => 0) value.stripped
  | .call callee _ arguments => .call callee.stripped closing (Expr.strippedEach arguments)

/-- The expressions without the same. -/
def Expr.strippedEach : List Expr → List Expr
  | [] => []
  | first :: others => first.stripped :: Expr.strippedEach others

end

/-! ## Spelling what can be written -/

/-- Every one of the tokens can be spelled. -/
def Legible (tokens : List Token) : Prop :=
  ∀ token ∈ tokens, ∃ word, Spells word token

variable {tokens others : List Token} {token : Token}

theorem Token.Genuine.spelled (h : token.Genuine) : ∃ word, Spells word token :=
  ⟨token.lexeme.toList, h⟩

theorem Token.genuine_mark {kind : TokenKind} {lexeme : String}
    (hlexeme : Lexeme kind lexeme.toList) (hstring : kind ≠ .string) (hnumber : kind ≠ .number) :
    (mark kind lexeme).Genuine :=
  ⟨hlexeme, .other hstring hnumber, fun _ => String.ofList_toList.symm⟩

theorem Notation.genuine_opening : opening.Genuine :=
  Token.genuine_mark (.operator (by decide)) (by decide) (by decide)

theorem Notation.genuine_closing : closing.Genuine :=
  Token.genuine_mark (.operator (by decide)) (by decide) (by decide)

theorem Notation.genuine_comma : comma.Genuine :=
  Token.genuine_mark (.operator (by decide)) (by decide) (by decide)

theorem Notation.genuine_equals : equals.Genuine :=
  Token.genuine_mark (.operator (by decide)) (by decide) (by decide)

theorem Literal.Writable.spelled {value : Literal} (h : value.Writable) :
    ∃ word, Spells word value.token := by
  cases value with
  | nil => exact (Token.genuine_mark (.keyword .nil) (by decide) (by decide)).spelled
  | bool value =>
      cases value with
      | false => exact (Token.genuine_mark (.keyword .false) (by decide) (by decide)).spelled
      | true => exact (Token.genuine_mark (.keyword .true) (by decide) (by decide)).spelled
  | number value =>
      obtain ⟨text, hlexeme, rfl⟩ := h
      exact ⟨text, hlexeme, .number, by simp [Literal.token]⟩
  | string contents =>
      have hcarries : Carries .string ('"' :: (contents.toList ++ ['"']))
          (some (.text (String.ofList contents.toList))) := .string
      rw [String.ofList_toList] at hcarries
      exact ⟨_, .string h, hcarries, by simp [Literal.token]⟩

theorem Legible.cons (h : ∃ word, Spells word token) (hothers : Legible others) :
    Legible (token :: others) :=
  List.forall_mem_cons.mpr ⟨h, hothers⟩

theorem Legible.append (h : Legible tokens) (hothers : Legible others) :
    Legible (tokens ++ others) :=
  List.forall_mem_append.mpr ⟨h, hothers⟩

theorem legible_singleton (h : ∃ word, Spells word token) : Legible [token] :=
  .cons h (by simp [Legible])

theorem Legible.parenthesised (h : Legible tokens) :
    Legible (opening :: (tokens ++ [closing])) :=
  .cons genuine_opening.spelled (h.append (legible_singleton genuine_closing.spelled))

theorem Legible.enclosed (h : Legible tokens) (asked strength : Nat) :
    Legible (enclosed asked strength tokens) := by
  unfold Notation.enclosed
  split
  · exact h.parenthesised
  · exact h

namespace Expr

theorem legible_tokensOfArguments {arguments : List Expr}
    (h : ∀ argument ∈ arguments, Legible argument.tokens) :
    Legible (tokensOfArguments arguments) := by
  induction arguments with
  | nil => simp [Legible, tokensOfArguments]
  | cons first others ih =>
      obtain ⟨hfirst, hothers⟩ := List.forall_mem_cons.mp h
      cases others with
      | nil => exact hfirst
      | cons next others =>
          rw [tokensOfArguments]
          exact hfirst.append (.cons genuine_comma.spelled (ih hothers))

/-- Every token of an expression that can be written can be spelled. -/
theorem Plain.legible {node : Expr} (h : node.Plain) : Legible node.tokens := by
  induction h with
  | literal hvalue => exact legible_singleton hvalue.spelled
  | «variable» _ hname => exact legible_singleton hname.spelled
  | assign _ hname _ ih => exact .cons hname.spelled (.cons genuine_equals.spelled ih)
  | unary _ hoperator _ ih => exact .cons hoperator.spelled (ih.enclosed _ _)
  | binary _ hoperator _ _ hleft hright =>
      rw [tokens]
      exact (hleft.enclosed _ _).append (.cons hoperator.spelled (hright.enclosed _ _))
  | logical _ hoperator _ _ hleft hright =>
      rw [tokens]
      exact (hleft.enclosed _ _).append (.cons hoperator.spelled (hright.enclosed _ _))
  | call _ _ _ hcallee harguments =>
      rw [tokens]
      exact (hcallee.enclosed _ _).append (legible_tokensOfArguments harguments).parenthesised

end Expr

end LoxLang
