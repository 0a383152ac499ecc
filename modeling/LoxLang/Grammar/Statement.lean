/-
# The grammar of statements

A fatal error gives up the declaration it occurs in, and no more than that: the
tokens up to the next likely start of a statement are dropped, and reading goes on
there. The error that was found is kept, so one pass over a program reports every
statement that is wrong.

A counting loop has no node of its own. It becomes a loop whose body ends with the
step, inside a block that begins with the initial part.
-/

import LoxLang.Grammar.Expression

namespace LoxLang

/-- What became of a declaration: its statement, or nothing if an error in it was
recovered from. Some token was used up either way. -/
structure Recovered (tokens : List Token) where
  /-- The statement, unless there was a fatal error. -/
  statement : Option Stmt
  /-- The tokens to go on with. -/
  rest : List Token
  /-- The errors found, fatal or not, in order. -/
  errors : List SyntaxError
  /-- Reading has advanced. -/
  shorter : rest.length < tokens.length

/-- The reserved words that are taken for the start of a statement while tokens
are dropped. -/
def resumeWords : List Keyword :=
  [.class, .fun, .var, .for, .if, .while, .print, .return]

/-- Whether dropping tokens stops before the next one. -/
def resumesAt : List Token → Bool
  | [] => true
  | token :: _ => decide (token.kind ∈ resumeWords.map TokenKind.keyword)

/-- What is left after dropping the next token and all that follow it, up to and
including a semicolon or up to the start of a statement. -/
def resume : List Token → List Token
  | [] => []
  | dropped :: rest =>
    if dropped.kind = .semicolon ∨ resumesAt rest then rest else resume rest

theorem length_resume_le (tokens : List Token) : (resume tokens).length ≤ tokens.length - 1 := by
  induction tokens with
  | nil => exact Nat.le_refl _
  | cons dropped rest ih =>
    rw [resume]
    split
    · exact Nat.le_refl _
    · exact Nat.le_trans ih (Nat.sub_le _ _)

theorem length_resume_lt {token : Token} {after rest : List Token}
    (left : rest.length ≤ (token :: after).length) :
    (resume rest).length < (token :: after).length := by
  have h := length_resume_le rest
  rw [List.length_cons] at left ⊢
  omega

/-- Recover from the fatal error of an attempt, if it has one. -/
def Attempt.recovered {token : Token} {after : List Token} :
    Attempt true Stmt (token :: after) → Recovered (token :: after)
  | .ok statement rest errors left => ⟨some statement, rest, errors, left⟩
  | .fail fatal rest errors left =>
    ⟨none, resume rest, errors ++ [fatal], length_resume_lt left⟩

/-- The loop that a counting loop stands for. The step runs after the body, in a
block with it, and the initial part runs once in a scope of the loop's own; what
is absent leaves no block behind, and an absent condition always holds. -/
def Stmt.counting (initial : Option Stmt) (condition step : Option Expr) (body : Stmt) : Stmt :=
  let stepped :=
    match step with
    | some step => .block [body, .expression step]
    | none => body
  let repeated := .loop (condition.getD (.literal (.bool true))) stepped
  match initial with
  | some initial => .block [initial, repeated]
  | none => repeated

namespace Grammar

variable (eof : Token)

/-- An expression, or nothing if the next token is of the given kind. -/
def optional (stop : TokenKind) (tokens : List Token) : Attempt false (Option Expr) tokens :=
  if startsWith stop tokens then .done none
  else ((expression eof tokens).map some).weaken

/-- An expression and the semicolon after it, made into a statement. -/
def terminated (make : Expr → Stmt) (fault : SyntaxFault) (tokens : List Token) :
    Attempt true Stmt tokens :=
  (expression eof tokens).andThen fun value rest _ =>
    (expect eof .semicolon fault rest).map fun _ => make value

/-- A variable declaration after its first word. -/
def variableDeclaration (tokens : List Token) : Attempt true Stmt tokens :=
  (expect eof .identifier .noVariableName tokens).andThen fun name rest _ =>
    accept [.equal] rest
      (fun _ after _ =>
        terminated eof (fun initial => .var name (some initial)) .noSemicolonAfterVariable after)
      ((expect eof .semicolon .noSemicolonAfterVariable rest).map fun _ => .var name none)

/-- A return statement after its first word. Outside of functions it is objected
to, but read. -/
def returned (insideFunction : Bool) (keyword : Token) (tokens : List Token) :
    Attempt true Stmt tokens :=
  ((optional eof .semicolon tokens).andThen fun value rest _ =>
    (expect eof .semicolon .noSemicolonAfterReturnValue rest).map fun _ =>
      .ret keyword value).noting
    (if insideFunction then [] else [⟨.returnOutsideFunction, keyword⟩])

/-- A condition in parentheses. -/
def condition (noOpening noClosing : SyntaxFault) (tokens : List Token) :
    Attempt true Expr tokens :=
  (expect eof .leftParen noOpening tokens).andThen fun _ rest _ =>
    (expression eof rest).andThen fun value rest _ =>
      (expect eof .rightParen noClosing rest).map fun _ => value

/-- Parameter names with commas between them, after `count` that were read before. -/
def parameters (count : Nat) (tokens : List Token) : Attempt true (List Token) tokens :=
  ((expect eof .identifier .noParameterName tokens).andThen fun first rest _ =>
    accept [.comma] rest
      (fun _ after _ => (parameters (count + 1) after).map (first :: ·))
      (.done [first])).noting (excess eof .tooManyParameters count tokens)
termination_by tokens.length
decreasing_by omega

/-- The parameters of a function whose opening parenthesis has been read. -/
def parameterList (tokens : List Token) : Attempt true (List Token) tokens :=
  accept [.rightParen] tokens
    (fun _ _ _ => .done [])
    ((parameters eof 0 tokens).andThen fun names rest _ =>
      (expect eof .rightParen .noParenAfterParameters rest).map fun _ => names)

/-- The name and the parameters of a function, up to the brace that opens its body. -/
def signature (tokens : List Token) : Attempt true (Token × List Token) tokens :=
  (expect eof .identifier .noFunctionName tokens).andThen fun name rest _ =>
    (expect eof .leftParen .noParenAfterFunctionName rest).andThen fun _ rest _ =>
      (parameterList eof rest).andThen fun names rest _ =>
        (expect eof .leftBrace .noBraceBeforeBody rest).map fun _ => (name, names)

/-- The clauses of a counting loop. -/
structure Clauses where
  /-- The initial part. -/
  initial : Option Stmt
  /-- The condition. -/
  condition : Option Expr
  /-- The step. -/
  step : Option Expr

/-- The initial part of a counting loop, with its semicolon. -/
def initialClause (tokens : List Token) : Attempt true (Option Stmt) tokens :=
  accept [.semicolon] tokens
    (fun _ _ _ => .done none)
    (accept [.keyword .var] tokens
      (fun _ after _ => (variableDeclaration eof after).map some)
      ((terminated eof .expression .noSemicolonAfterExpression tokens).map some))

/-- The clauses of a counting loop, in their parentheses. -/
def clauses (tokens : List Token) : Attempt true Clauses tokens :=
  (expect eof .leftParen .noParenAfterFor tokens).andThen fun _ rest _ =>
    (initialClause eof rest).andThen fun initial rest _ =>
      (optional eof .semicolon rest).andThen fun condition rest _ =>
        (expect eof .semicolon .noSemicolonAfterLoopCondition rest).andThen fun _ rest _ =>
          (optional eof .rightParen rest).andThen fun step rest _ =>
            (expect eof .rightParen .noParenAfterForClauses rest).map fun _ =>
              ⟨initial, condition, step⟩

mutual

/-- A declaration, with recovery from its fatal error. -/
def declaration (insideFunction : Bool) (first : Token) (after : List Token) :
    Recovered (first :: after) :=
  (match first.kind with
    | .keyword .fun => (function after).afterToken
    | .keyword .var => (variableDeclaration eof after).afterToken
    | _ => statement insideFunction (first :: after)).recovered
termination_by 16 * (first :: after).length + 3
decreasing_by
  · rw [List.length_cons]
    omega
  · exact Nat.lt_succ_self _

/-- A function declaration after its first word. -/
def function (tokens : List Token) : Attempt true Stmt tokens :=
  (signature eof tokens).andThen fun (name, names) rest _ =>
    (block true rest).map (.function name names)
termination_by 16 * tokens.length
decreasing_by
  simp only [Bool.toNat_true] at *
  omega

/-- A statement. -/
def statement (insideFunction : Bool) (tokens : List Token) : Attempt true Stmt tokens :=
  match tokens with
  | [] => terminated eof .expression .noSemicolonAfterExpression []
  | first :: after =>
    match first.kind with
    | .keyword .for => (countingLoop insideFunction after).afterToken
    | .keyword .if => (branch insideFunction after).afterToken
    | .keyword .print => (terminated eof .print .noSemicolonAfterValue after).afterToken
    | .keyword .return => (returned eof insideFunction first after).afterToken
    | .keyword .while => (loop insideFunction after).afterToken
    | .leftBrace => ((block insideFunction after).map .block).afterToken
    | _ => terminated eof .expression .noSemicolonAfterExpression (first :: after)
termination_by 16 * tokens.length + 2
decreasing_by all_goals
  rw [List.length_cons]
  omega

/-- A counting loop after its first word. -/
def countingLoop (insideFunction : Bool) (tokens : List Token) : Attempt true Stmt tokens :=
  (clauses eof tokens).andThen fun clauses rest _ =>
    (statement insideFunction rest).map
      (.counting clauses.initial clauses.condition clauses.step)
termination_by 16 * tokens.length
decreasing_by
  simp only [Bool.toNat_true] at *
  omega

/-- A branch after its first word. An alternative belongs to the nearest branch
before it. -/
def branch (insideFunction : Bool) (tokens : List Token) : Attempt true Stmt tokens :=
  (condition eof .noParenAfterIf .noParenAfterIfCondition tokens).andThen fun test rest _ =>
    (statement insideFunction rest).andThen fun consequent rest _ =>
      accept [.keyword .else] rest
        (fun _ after _ =>
          (statement insideFunction after).map fun alternative =>
            .branch test consequent (some alternative))
        (.done (.branch test consequent none))
termination_by 16 * tokens.length
decreasing_by all_goals
  simp only [Bool.toNat_true] at *
  omega

/-- A loop after its first word. -/
def loop (insideFunction : Bool) (tokens : List Token) : Attempt true Stmt tokens :=
  (condition eof .noParenAfterWhile .noParenAfterCondition tokens).andThen fun test rest _ =>
    (statement insideFunction rest).map (.loop test)
termination_by 16 * tokens.length
decreasing_by
  simp only [Bool.toNat_true] at *
  omega

/-- Declarations up to the brace that closes them, and that brace. -/
def block (insideFunction : Bool) (tokens : List Token) : Attempt true (List Stmt) tokens :=
  match tokens with
  | [] => .fail ⟨.noBraceAfterBlock, eof⟩ [] [] (Nat.le_refl _)
  | first :: after =>
    if first.kind = .rightBrace then (Attempt.done []).afterToken
    else
      match declaration insideFunction first after with
      | ⟨statement, rest, errors, shorter⟩ =>
        (((block insideFunction rest).map (statement.toList ++ ·)).noting errors).widen
          (Nat.le_of_lt shorter)
termination_by 16 * tokens.length + 4
decreasing_by
  · exact Nat.lt_succ_self _
  · omega

end

/-- The error of tokens that are left after a complete expression. -/
def trailing : List Token → List SyntaxError
  | [] => []
  | token :: _ => [⟨.noEndOfExpression, token⟩]

/-- All declarations of the tokens, and all errors in them. -/
def declarations (tokens : List Token) : Program × List SyntaxError :=
  match tokens with
  | [] => ([], [])
  | first :: after =>
    match declaration eof false first after with
    | ⟨statement, rest, errors, _⟩ =>
      let others := declarations rest
      (statement.toList ++ others.1, errors ++ others.2)
termination_by tokens.length
decreasing_by assumption

end Grammar

/-- The tokens that count, which are those before the first one for the end, and
the token that errors at the end are located at. Tokens that lack an end are taken
to have one on line zero. -/
def untilEof (tokens : List Token) : List Token × Token :=
  (tokens.takeWhile (·.kind != .eof), (tokens.find? (·.kind == .eof)).getD (Token.eof 0))

/-- The program that the tokens spell, or every error in them. -/
def Program.ofTokens (tokens : List Token) : Except (List SyntaxError) Program :=
  let (body, eof) := untilEof tokens
  match Grammar.declarations eof body with
  | (program, []) => .ok program
  | (_, errors) => .error errors

/-- The one expression that the tokens spell, or the errors in them. -/
def Expr.ofTokens (tokens : List Token) : Except (List SyntaxError) Expr :=
  let (body, eof) := untilEof tokens
  match Grammar.expression eof body with
  | .fail fatal _ errors _ => .error (errors ++ [fatal])
  | .ok value rest errors _ =>
    match errors ++ Grammar.trailing rest with
    | [] => .ok value
    | errors => .error errors

end LoxLang
