/-
# Reading tokens by an index

The grammar is written as rules for lists of tokens: what is left of the tokens is passed
from one rule to the next, and the end of the source is not among them. The same can be read
with no more than an index into the tokens as they are given. A parser looks at the token
under its index or at the one before it, moves the index on, and collects the errors that it
finds on the way.

An index may be wrong in a way that a list cannot, since there may be no token at it. What is
looked at there is a token for the end. The number of the function bodies that are open is
counted up and down, and recovery from an error is a loop of its own.

That this ends is no part of the definitions. A rule is given fuel, of which the rules that it
applies get one unit less, and it comes to nothing once that is used up. It is a theorem that
some fuel is enough.
-/

import LoxLang.Grammar.Statement

namespace LoxLang

/-- Where reading is in a list of tokens. -/
structure Parser where
  /-- All the tokens. -/
  tokens : List Token
  /-- The index of the next token. -/
  current : Nat
  /-- The errors found so far, in order. -/
  errors : List SyntaxError
  /-- How many bodies of functions are open. -/
  functionDepth : Nat

/-- What a rule does, which is to read something or to give up on a fatal error. It comes to
nothing if it runs out of fuel. -/
abbrev Parsing (α : Type) := ExceptT SyntaxError (StateT Parser Option) α

/-- There is no fuel left. -/
def Parsing.outOfFuel {α : Type} : Parsing α := fun _ => none

namespace Parser

/-! ## The index -/

section

variable (parser : Parser)

/-- A parser of which nothing is read yet. -/
def start (tokens : List Token) : Parser where
  tokens := tokens
  current := 0
  errors := []
  functionDepth := 0

/-- The token under the index. Behind the last token stands one for the end, on line zero. -/
def peek : Token :=
  parser.tokens[parser.current]?.getD (Token.eof 0)

/-- The token before the index, or the one under it at the start. -/
def previous : Token :=
  parser.tokens[parser.current - 1]?.getD (Token.eof 0)

/-- Whether the token under the index is for the end. -/
def isAtEnd : Bool :=
  parser.peek.kind == .eof

/-- Whether the next token is of the given kind. At the end it is of none. -/
def check (kind : TokenKind) : Bool :=
  if parser.isAtEnd then false else parser.peek.kind == kind

/-- Pass the next token, unless it is for the end. -/
def advance : Parser :=
  if parser.isAtEnd then parser else { parser with current := parser.current + 1 }

/-- Keep an error with those found before. -/
def record (error : SyntaxError) : Parser :=
  { parser with errors := parser.errors ++ [error] }

theorem lt_length_of_isAtEnd {parser : Parser} (h : ¬ parser.isAtEnd = true) :
    parser.current < parser.tokens.length := by
  refine Nat.lt_of_not_le fun outside => h ?_
  rw [isAtEnd, peek, List.getElem?_eq_none outside]
  rfl

/-- Go on until a semicolon was passed or a statement may start. -/
def seek (parser : Parser) : Parser :=
  if parser.isAtEnd then parser
  else if parser.previous.kind = .semicolon ∨
      parser.peek.kind ∈ resumeWords.map TokenKind.keyword then parser
  else seek parser.advance
termination_by parser.tokens.length - parser.current
decreasing_by
  rename_i before _
  have inside := lt_length_of_isAtEnd before
  rw [advance, if_neg before]
  exact Nat.sub_lt_sub_left inside (Nat.lt_succ_self _)

/-- Pass the token that an error is at, and then all up to where a statement may start. -/
def synchronize : Parser :=
  parser.advance.seek

end

/-- Note an error that is not fatal. -/
def note (fault : SyntaxFault) (token : Token) : Parsing Unit :=
  modify (·.record ⟨fault, token⟩)

/-- Pass the next token if it is of the given kind, and tell whether it is. -/
def matchKind (kind : TokenKind) : Parsing Bool := do
  let parser ← get
  if parser.check kind then
    set parser.advance
    return true
  else return false

/-- Pass the next token if it is of one of the given kinds, and tell whether it is. -/
def matchAny : List TokenKind → Parsing Bool
  | [] => return false
  | kind :: kinds => do
    if ← matchKind kind then return true
    else matchAny kinds

/-- Note at the next token that `count` entries were read already, if no more are allowed. -/
def noteExcess (fault : SyntaxFault) (count : Nat) : Parsing Unit := do
  if maxArity ≤ count then note fault (← get).peek

/-- Pass a token of the given kind, or give up. -/
def consume (kind : TokenKind) (fault : SyntaxFault) : Parsing Token := do
  let parser ← get
  if parser.check kind then
    set parser.advance
    return parser.advance.previous
  else throw ⟨fault, parser.peek⟩

/-- The entries before a closing parenthesis, of which there may be none. -/
def optionally {α : Type} (entries : Parsing (List α)) : Parsing (List α) := do
  if (← get).check .rightParen then return []
  else entries

/-! ## Expressions -/

/-- The constant that a number or a string carries. -/
def constant (token : Token) : Parsing Expr :=
  match token.payload with
  | some payload => return .literal payload.literal
  | none => throw ⟨.malformedLiteral, token⟩

mutual

/-- An expression, which may be an assignment. -/
def expression : Nat → Parsing Expr
  | 0 => .outOfFuel
  | fuel + 1 => do
    let target ← chain fuel tiers
    if ← matchKind .equal then
      let equals := (← get).previous
      let value ← expression fuel
      match target with
      | .variable name => return .assign name value
      | _ =>
        note .invalidAssignmentTarget equals
        return target
    else return target

/-- Operands of the given tiers, joined by operators of the first of them. -/
def chain : Nat → List Tier → Parsing Expr
  | 0, _ => .outOfFuel
  | fuel + 1, [] => unary fuel
  | fuel + 1, tier :: tighter => do
    let left ← chain fuel tighter
    operands fuel tier tighter left

/-- The operators of a tier that follow `left`, each with its right operand. -/
def operands : Nat → Tier → List Tier → Expr → Parsing Expr
  | 0, _, _, _ => .outOfFuel
  | fuel + 1, tier, tighter, left => do
    if ← matchAny tier.operators then
      let operator := (← get).previous
      let right ← chain fuel tighter
      operands fuel tier tighter (tier.node left operator right)
    else return left

/-- An operand with the unary operators in front of it. -/
def unary : Nat → Parsing Expr
  | 0 => .outOfFuel
  | fuel + 1 => do
    if ← matchAny unaryOperators then
      let operator := (← get).previous
      let operand ← unary fuel
      return .unary operator operand
    else application fuel

/-- An operand with the argument lists that follow it. -/
def application : Nat → Parsing Expr
  | 0 => .outOfFuel
  | fuel + 1 => do
    let callee ← primary fuel
    calls fuel callee

/-- The argument lists that follow `callee`. -/
def calls : Nat → Expr → Parsing Expr
  | 0, _ => .outOfFuel
  | fuel + 1, callee => do
    if ← matchKind .leftParen then
      let call ← callOf fuel callee
      calls fuel call
    else return callee

/-- The call of `callee` whose opening parenthesis has been passed. -/
def callOf : Nat → Expr → Parsing Expr
  | 0, _ => .outOfFuel
  | fuel + 1, callee => do
    let values ← optionally (arguments fuel [])
    let paren ← consume .rightParen .noParenAfterArguments
    return .call callee paren values

/-- Arguments with commas between them, after those that were read before. -/
def arguments : Nat → List Expr → Parsing (List Expr)
  | 0, _ => .outOfFuel
  | fuel + 1, before => do
    noteExcess .tooManyArguments before.length
    let value ← expression fuel
    if ← matchKind .comma then arguments fuel (before ++ [value])
    else return before ++ [value]

/-- A constant, a name, or an expression in parentheses. -/
def primary : Nat → Parsing Expr
  | 0 => .outOfFuel
  | fuel + 1 => do
    if ← matchKind (.keyword .false) then return .literal (.bool false)
    else if ← matchKind (.keyword .true) then return .literal (.bool true)
    else if ← matchKind (.keyword .nil) then return .literal .nil
    else if ← matchAny [.number, .string] then constant (← get).previous
    else if ← matchKind .identifier then return .variable (← get).previous
    else if ← matchKind .leftParen then
      let inner ← expression fuel
      let _ ← consume .rightParen .noParenAfterExpression
      return .grouping inner
    else throw ⟨.noExpression, (← get).peek⟩

end

/-! ## Parts of statements -/

section

variable (fuel : Nat)

/-- An expression, or nothing if the next token is of the given kind. -/
def optional (stop : TokenKind) : Parsing (Option Expr) := do
  if (← get).check stop then return none
  else return some (← expression fuel)

/-- An expression and the semicolon after it, made into a statement. -/
def terminated (make : Expr → Stmt) (fault : SyntaxFault) : Parsing Stmt := do
  let value ← expression fuel
  let _ ← consume .semicolon fault
  return make value

/-- The sign of assignment and an expression, or nothing. -/
def initializer : Parsing (Option Expr) := do
  if ← matchKind .equal then return some (← expression fuel)
  else return none

/-- A variable declaration after its first word. -/
def variableDeclaration : Parsing Stmt := do
  let name ← consume .identifier .noVariableName
  let initial ← initializer fuel
  let _ ← consume .semicolon .noSemicolonAfterVariable
  return .var name initial

/-- A return statement after its first word, which is the token before the index. -/
def returned : Parsing Stmt := do
  let parser ← get
  if parser.functionDepth = 0 then note .returnOutsideFunction parser.previous
  let value ← optional fuel .semicolon
  let _ ← consume .semicolon .noSemicolonAfterReturnValue
  return .ret parser.previous value

/-- A condition in parentheses. -/
def condition (noOpening noClosing : SyntaxFault) : Parsing Expr := do
  let _ ← consume .leftParen noOpening
  let value ← expression fuel
  let _ ← consume .rightParen noClosing
  return value

/-- The initial part of a counting loop, with its semicolon. -/
def initialClause : Parsing (Option Stmt) := do
  if ← matchKind .semicolon then return none
  else if ← matchKind (.keyword .var) then return some (← variableDeclaration fuel)
  else return some (← terminated fuel .expression .noSemicolonAfterExpression)

/-- The clauses of a counting loop, in their parentheses. -/
def clauses : Parsing Grammar.Clauses := do
  let _ ← consume .leftParen .noParenAfterFor
  let initial ← initialClause fuel
  let condition ← optional fuel .semicolon
  let _ ← consume .semicolon .noSemicolonAfterLoopCondition
  let step ← optional fuel .rightParen
  let _ ← consume .rightParen .noParenAfterForClauses
  return ⟨initial, condition, step⟩

end

/-- Parameter names with commas between them, after those that were read before. -/
def parameters : Nat → List Token → Parsing (List Token)
  | 0, _ => .outOfFuel
  | fuel + 1, before => do
    noteExcess .tooManyParameters before.length
    let name ← consume .identifier .noParameterName
    if ← matchKind .comma then parameters fuel (before ++ [name])
    else return before ++ [name]

/-- The parameters of a function whose opening parenthesis has been passed. -/
def parameterList (fuel : Nat) : Parsing (List Token) := do
  let names ← optionally (parameters fuel [])
  let _ ← consume .rightParen .noParenAfterParameters
  return names

/-- The name and the parameters of a function, up to the brace that opens its body. -/
def signature (fuel : Nat) : Parsing (Token × List Token) := do
  let name ← consume .identifier .noFunctionName
  let _ ← consume .leftParen .noParenAfterFunctionName
  let names ← parameterList fuel
  let _ ← consume .leftBrace .noBraceBeforeBody
  return (name, names)

/-! ## Statements -/

/-- The fatal error of a rule that gives up is kept, and reading goes on where a statement may
start. -/
def recovering (rule : Parsing Stmt) : StateT Parser Option (Option Stmt) := fun parser => do
  match ← rule parser with
  | (.ok statement, parser) => return (some statement, parser)
  | (.error fatal, parser) => return (none, (parser.record fatal).synchronize)

/-- Read the body of a function, which is closed again even if there is an error in it. -/
def inFunction (body : Parsing (List Stmt)) : Parsing (List Stmt) := fun parser => do
  let (read, parser) ← body { parser with functionDepth := parser.functionDepth + 1 }
  return (read, { parser with functionDepth := parser.functionDepth - 1 })

mutual

/-- A declaration, with recovery from its fatal error. -/
def declaration : Nat → StateT Parser Option (Option Stmt)
  | 0 => fun _ => none
  | fuel + 1 => recovering do
    if ← matchKind (.keyword .fun) then function fuel
    else if ← matchKind (.keyword .var) then variableDeclaration fuel
    else statement fuel

/-- A function declaration after its first word. -/
def function : Nat → Parsing Stmt
  | 0 => .outOfFuel
  | fuel + 1 => do
    let (name, names) ← signature fuel
    let body ← inFunction (block fuel [])
    return .function name names body

/-- A statement. -/
def statement : Nat → Parsing Stmt
  | 0 => .outOfFuel
  | fuel + 1 => do
    if ← matchKind (.keyword .for) then countingLoop fuel
    else if ← matchKind (.keyword .if) then branch fuel
    else if ← matchKind (.keyword .print) then terminated fuel .print .noSemicolonAfterValue
    else if ← matchKind (.keyword .return) then returned fuel
    else if ← matchKind (.keyword .while) then loop fuel
    else if ← matchKind .leftBrace then return .block (← block fuel [])
    else terminated fuel .expression .noSemicolonAfterExpression

/-- A counting loop after its first word. -/
def countingLoop : Nat → Parsing Stmt
  | 0 => .outOfFuel
  | fuel + 1 => do
    let clauses ← clauses fuel
    let body ← statement fuel
    return .counting clauses.initial clauses.condition clauses.step body

/-- A branch after its first word. -/
def branch : Nat → Parsing Stmt
  | 0 => .outOfFuel
  | fuel + 1 => do
    let test ← condition fuel .noParenAfterIf .noParenAfterIfCondition
    let consequent ← statement fuel
    if ← matchKind (.keyword .else) then
      let alternative ← statement fuel
      return .branch test consequent (some alternative)
    else return .branch test consequent none

/-- A loop after its first word. -/
def loop : Nat → Parsing Stmt
  | 0 => .outOfFuel
  | fuel + 1 => do
    let test ← condition fuel .noParenAfterWhile .noParenAfterCondition
    let body ← statement fuel
    return .loop test body

/-- The declarations up to the brace that closes them, after those that were read before, and
that brace. -/
def block : Nat → List Stmt → Parsing (List Stmt)
  | 0, _ => .outOfFuel
  | fuel + 1, before => fun parser => do
    if parser.check .rightBrace || parser.isAtEnd then
      let (closing, parser) ← consume .rightBrace .noBraceAfterBlock parser
      return (closing.map fun _ => before, parser)
    else
      let (statement, parser) ← declaration fuel parser
      block fuel (before ++ statement.toList) parser

end

/-- The declarations up to the end, after those that were read before. -/
def declarations : Nat → Program → StateT Parser Option Program
  | 0, _ => fun _ => none
  | fuel + 1, before => fun parser => do
    if parser.isAtEnd then return (before, parser)
    else
      let (statement, parser) ← declaration fuel parser
      declarations fuel (before ++ statement.toList) parser

/-! ## Whole inputs -/

/-- What was read if there are no errors, and the errors otherwise. -/
def verdict {α : Type} (value : α) : List SyntaxError → Except (List SyntaxError) α
  | [] => .ok value
  | errors => .error errors

/-- The program that the tokens spell, or every error in them. -/
def parse (fuel : Nat) (tokens : List Token) : Option (Except (List SyntaxError) Program) := do
  let (program, parser) ← declarations fuel [] (start tokens)
  return verdict program parser.errors

/-- Keep an error if tokens are left after a complete expression. -/
def recordTrailing (parser : Parser) : Parser :=
  if parser.isAtEnd then parser else parser.record ⟨.noEndOfExpression, parser.peek⟩

/-- The one expression that the tokens spell, or the errors in them. -/
def parseExpression (fuel : Nat) (tokens : List Token) :
    Option (Except (List SyntaxError) Expr) := do
  match ← expression fuel (start tokens) with
  | (.error fatal, parser) => return .error (parser.record fatal).errors
  | (.ok value, parser) => return verdict value parser.recordTrailing.errors

end Parser

end LoxLang
