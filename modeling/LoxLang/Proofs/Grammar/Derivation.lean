/-
# Derivations of programs

The language as a grammar, apart from how it is read: a derivation relates a list
of tokens to the tree it stands for, one constructor for each production. Only the
kinds of tokens decide what derives, except that a number or a string must carry
its value; the trees hold the tokens themselves.

Read strictly, the productions include the limits that the language sets: what is
assigned to is a bare name, a list of parameters or arguments has at most 255
entries, and a return stands inside a function. The relaxed reading drops these
three and nothing else; it describes the texts whose shape is beyond doubt.

A statement is open if it ends with a branch that could still take an alternative.
No open statement stands before an `else`, so that the alternative belongs to the
nearest branch.
-/

import LoxLang.Tree.Basic

namespace LoxLang.Grammar

/-- How the limits on what may be written are meant. -/
inductive Reading
  | strict
  | relaxed
  deriving DecidableEq

/-- The chains of binary operators, the loosest first. -/
inductive Level
  | disjunction
  | conjunction
  | equality
  | comparison
  | term
  | factor

/-- What an expression can be derived as. The top is `assignment`. -/
inductive Rule
  | assignment
  | chain (level : Level)
  | unary
  | call
  | primary

namespace Level

/-- The operators that join the operands of a chain. -/
def operators : Level → List TokenKind
  | .disjunction => [.keyword .or]
  | .conjunction => [.keyword .and]
  | .equality => [.bangEqual, .equalEqual]
  | .comparison => [.greater, .greaterEqual, .less, .lessEqual]
  | .term => [.minus, .plus]
  | .factor => [.slash, .star]

/-- The rule for the operands of a chain. -/
def operand : Level → Rule
  | .disjunction => .chain .conjunction
  | .conjunction => .chain .equality
  | .equality => .chain .comparison
  | .comparison => .chain .term
  | .term => .chain .factor
  | .factor => .unary

/-- The tree of two operands and the operator between them. -/
def node : Level → Expr → Token → Expr → Expr
  | .disjunction => .logical
  | .conjunction => .logical
  | _ => .binary

end Level

variable (reading : Reading)

mutual

/-- The tokens derive the expression by the rule. -/
inductive Phrase : Rule → List Token → Expr → Prop
  | /-- `IDENT "=" assignment`, which nests to the right. -/
    assign {name equals : Token} {tokens : List Token} {value : Expr} :
      name.kind = .identifier → equals.kind = .equal → Phrase .assignment tokens value →
      Phrase .assignment (name :: equals :: tokens) (.assign name value)
  | /-- `logic_or "=" assignment`, whose target alone is kept. -/
    misassign {before after : List Token} {equals : Token} {target value : Expr} :
      reading = .relaxed → Phrase (.chain .disjunction) before target →
      (∀ name, target ≠ .variable name) → equals.kind = .equal →
      Phrase .assignment after value → Phrase .assignment (before ++ equals :: after) target
  | unassigned {tokens : List Token} {value : Expr} :
      Phrase (.chain .disjunction) tokens value → Phrase .assignment tokens value
  | /-- One more operator and operand, which makes the chain so far the left operand. -/
    join {level : Level} {before after : List Token} {operator : Token} {left right : Expr} :
      Phrase (.chain level) before left → operator.kind ∈ level.operators →
      Phrase level.operand after right →
      Phrase (.chain level) (before ++ operator :: after) (level.node left operator right)
  | single {level : Level} {tokens : List Token} {value : Expr} :
      Phrase level.operand tokens value → Phrase (.chain level) tokens value
  | /-- `( "!" | "-" ) unary`. -/
    signed {operator : Token} {tokens : List Token} {operand : Expr} :
      operator.kind = .bang ∨ operator.kind = .minus → Phrase .unary tokens operand →
      Phrase .unary (operator :: tokens) (.unary operator operand)
  | unsigned {tokens : List Token} {value : Expr} :
      Phrase .call tokens value → Phrase .unary tokens value
  | /-- `call "(" ")"`. -/
    callBare {tokens : List Token} {opening closing : Token} {callee : Expr} :
      Phrase .call tokens callee → opening.kind = .leftParen → closing.kind = .rightParen →
      Phrase .call (tokens ++ [opening, closing]) (.call callee closing [])
  | /-- `call "(" arguments ")"`. -/
    callWith {before inside : List Token} {opening closing : Token} {callee : Expr}
      {arguments : List Expr} :
      Phrase .call before callee → opening.kind = .leftParen → Arguments inside arguments →
      (reading = .strict → arguments.length ≤ 255) → closing.kind = .rightParen →
      Phrase .call (before ++ opening :: (inside ++ [closing])) (.call callee closing arguments)
  | uncalled {tokens : List Token} {value : Expr} :
      Phrase .primary tokens value → Phrase .call tokens value
  | false {token : Token} :
      token.kind = .keyword .false → Phrase .primary [token] (.literal (.bool false))
  | true {token : Token} :
      token.kind = .keyword .true → Phrase .primary [token] (.literal (.bool true))
  | nil {token : Token} :
      token.kind = .keyword .nil → Phrase .primary [token] (.literal .nil)
  | /-- `NUMBER | STRING`, which must carry a value. -/
    constant {token : Token} {payload : Payload} :
      token.kind = .number ∨ token.kind = .string → token.payload = some payload →
      Phrase .primary [token] (.literal payload.literal)
  | name {token : Token} :
      token.kind = .identifier → Phrase .primary [token] (.variable token)
  | /-- `"(" expression ")"`. -/
    grouping {opening closing : Token} {tokens : List Token} {inner : Expr} :
      opening.kind = .leftParen → Phrase .assignment tokens inner →
      closing.kind = .rightParen →
      Phrase .primary (opening :: (tokens ++ [closing])) (.grouping inner)

/-- The tokens derive arguments with commas between them, none after the last. -/
inductive Arguments : List Token → List Expr → Prop
  | last {tokens : List Token} {value : Expr} :
      Phrase .assignment tokens value → Arguments tokens [value]
  | more {tokens rest : List Token} {comma : Token} {value : Expr} {others : List Expr} :
      Phrase .assignment tokens value → comma.kind = .comma → Arguments rest others →
      Arguments (tokens ++ comma :: rest) (value :: others)

end

/-- The tokens derive an expression, or there are none. -/
inductive OptionalPhrase : List Token → Option Expr → Prop
  | absent : OptionalPhrase [] none
  | present {tokens : List Token} {value : Expr} :
      Phrase reading .assignment tokens value → OptionalPhrase tokens (some value)

/-- The tokens derive parameters with commas between them, none after the last. -/
inductive Parameters : List Token → List Token → Prop
  | last {name : Token} : name.kind = .identifier → Parameters [name] [name]
  | more {name comma : Token} {tokens names : List Token} :
      name.kind = .identifier → comma.kind = .comma → Parameters tokens names →
      Parameters (name :: comma :: tokens) (name :: names)

/-- The tokens derive the parameters of a function, with their parentheses. -/
inductive ParameterList : List Token → List Token → Prop
  | none {opening closing : Token} :
      opening.kind = .leftParen → closing.kind = .rightParen →
      ParameterList [opening, closing] []
  | some {opening closing : Token} {tokens names : List Token} :
      opening.kind = .leftParen → Parameters tokens names →
      (reading = .strict → names.length ≤ 255) → closing.kind = .rightParen →
      ParameterList (opening :: (tokens ++ [closing])) names

/-- The tokens derive a variable declaration. -/
inductive Variable : List Token → Stmt → Prop
  | bare {word name semicolon : Token} :
      word.kind = .keyword .var → name.kind = .identifier → semicolon.kind = .semicolon →
      Variable [word, name, semicolon] (.var name none)
  | initial {word name equals semicolon : Token} {tokens : List Token} {value : Expr} :
      word.kind = .keyword .var → name.kind = .identifier → equals.kind = .equal →
      Phrase reading .assignment tokens value → semicolon.kind = .semicolon →
      Variable (word :: name :: equals :: (tokens ++ [semicolon])) (.var name (some value))

/-- The tokens derive an expression and the semicolon that makes it a statement. -/
inductive Terminated : List Token → Expr → Prop
  | intro {tokens : List Token} {value : Expr} {semicolon : Token} :
      Phrase reading .assignment tokens value → semicolon.kind = .semicolon →
      Terminated (tokens ++ [semicolon]) value

/-- The tokens derive a condition in parentheses. -/
inductive Condition : List Token → Expr → Prop
  | intro {opening closing : Token} {tokens : List Token} {test : Expr} :
      opening.kind = .leftParen → Phrase reading .assignment tokens test →
      closing.kind = .rightParen → Condition (opening :: (tokens ++ [closing])) test

/-- The tokens derive the initial part of a counting loop, with its semicolon. -/
inductive Initial : List Token → Option Stmt → Prop
  | none {semicolon : Token} : semicolon.kind = .semicolon → Initial [semicolon] none
  | declared {tokens : List Token} {declared : Stmt} :
      Variable reading tokens declared → Initial tokens (some declared)
  | expression {tokens : List Token} {value : Expr} :
      Terminated reading tokens value → Initial tokens (some (.expression value))

/-- The tokens derive the three parts of a counting loop, in their parentheses. -/
inductive Parts : List Token → Option Stmt → Option Expr → Option Expr → Prop
  | intro {opening semicolon closing : Token} {first second third : List Token}
      {initial : Option Stmt} {condition step : Option Expr} :
      opening.kind = .leftParen → Initial reading first initial →
      OptionalPhrase reading second condition → semicolon.kind = .semicolon →
      OptionalPhrase reading third step → closing.kind = .rightParen →
      Parts (opening :: (first ++ (second ++ semicolon :: (third ++ [closing]))))
        initial condition step

/-- The loop that a counting loop is short for: `initial` once in a block around it,
and after every round of `body` the step, in a block with it. Without a condition
the loop goes on for ever. -/
def unrolled (initial : Option Stmt) (condition step : Option Expr) (body : Stmt) : Stmt :=
  let round := step.elim body fun step => .block [body, .expression step]
  let loop := Stmt.loop (condition.getD (.literal (.bool true))) round
  initial.elim loop fun initial => .block [initial, loop]

/-- The loop that a counting loop is short for is made of blocks and a loop, so it has every
property that these pass on from what they hold. -/
theorem unrolled_induction {P : Stmt → Prop} {Q : Expr → Prop}
    (hblock : ∀ first second, P first → P second → P (.block [first, second]))
    (hexpression : ∀ value, Q value → P (.expression value))
    (hloop : ∀ test body, Q test → P body → P (.loop test body))
    (htrue : Q (.literal (.bool true))) {initial : Option Stmt} {condition step : Option Expr}
    {body : Stmt} (hinitial : ∀ node ∈ initial, P node) (hcondition : ∀ node ∈ condition, Q node)
    (hstep : ∀ node ∈ step, Q node) (hbody : P body) : P (unrolled initial condition step body) := by
  have hround : P (step.elim body fun step => .block [body, .expression step]) := by
    cases step with
    | none => exact hbody
    | some step => exact hblock _ _ hbody (hexpression step (hstep step rfl))
  have htest : Q (condition.getD (.literal (.bool true))) := by
    cases condition with
    | none => exact htrue
    | some condition => exact hcondition condition rfl
  cases initial with
  | none => exact hloop _ _ htest hround
  | some initial => exact hblock _ _ (hinitial initial rfl) (hloop _ _ htest hround)

mutual

/-- The tokens derive the statement. The flags tell whether it stands inside a
function and whether it is open. -/
inductive Statement : Bool → Bool → List Token → Stmt → Prop
  | expression {inside : Bool} {tokens : List Token} {value : Expr} :
      Terminated reading tokens value → Statement inside false tokens (.expression value)
  | print {inside : Bool} {word : Token} {tokens : List Token} {value : Expr} :
      word.kind = .keyword .print → Terminated reading tokens value →
      Statement inside false (word :: tokens) (.print value)
  | ret {inside : Bool} {word semicolon : Token} {tokens : List Token} {value : Option Expr} :
      word.kind = .keyword .return → (reading = .strict → inside = true) →
      OptionalPhrase reading tokens value → semicolon.kind = .semicolon →
      Statement inside false (word :: (tokens ++ [semicolon])) (.ret word value)
  | loop {inside ended : Bool} {word : Token} {header tokens : List Token} {test : Expr}
      {body : Stmt} :
      word.kind = .keyword .while → Condition reading header test →
      Statement inside ended tokens body →
      Statement inside ended (word :: (header ++ tokens)) (.loop test body)
  | counting {inside ended : Bool} {word : Token} {header tokens : List Token}
      {initial : Option Stmt} {condition step : Option Expr} {body : Stmt} :
      word.kind = .keyword .for → Parts reading header initial condition step →
      Statement inside ended tokens body →
      Statement inside ended (word :: (header ++ tokens)) (unrolled initial condition step body)
  | /-- A branch without an alternative is open, whatever its consequent is. -/
    branch {inside ended : Bool} {word : Token} {header tokens : List Token} {test : Expr}
      {consequent : Stmt} :
      word.kind = .keyword .if → Condition reading header test →
      Statement inside ended tokens consequent →
      Statement inside true (word :: (header ++ tokens)) (.branch test consequent none)
  | /-- A consequent before an `else` is not open. -/
    branchElse {inside ended : Bool} {word other : Token} {header before after : List Token}
      {test : Expr} {consequent alternative : Stmt} :
      word.kind = .keyword .if → Condition reading header test →
      Statement inside false before consequent → other.kind = .keyword .else →
      Statement inside ended after alternative →
      Statement inside ended (word :: (header ++ before ++ other :: after))
        (.branch test consequent (some alternative))
  | block {inside : Bool} {opening closing : Token} {tokens : List Token} {body : List Stmt} :
      opening.kind = .leftBrace → Declarations inside tokens body →
      closing.kind = .rightBrace →
      Statement inside false (opening :: (tokens ++ [closing])) (.block body)

/-- The tokens derive the declaration. -/
inductive Declaration : Bool → List Token → Stmt → Prop
  | function {inside : Bool} {word name opening closing : Token}
      {header tokens names : List Token} {body : List Stmt} :
      word.kind = .keyword .fun → name.kind = .identifier →
      ParameterList reading header names → opening.kind = .leftBrace →
      Declarations true tokens body → closing.kind = .rightBrace →
      Declaration inside (word :: name :: (header ++ opening :: (tokens ++ [closing])))
        (.function name names body)
  | declared {inside : Bool} {tokens : List Token} {declared : Stmt} :
      Variable reading tokens declared → Declaration inside tokens declared
  | statement {inside ended : Bool} {tokens : List Token} {statement : Stmt} :
      Statement inside ended tokens statement → Declaration inside tokens statement

/-- The tokens derive the declarations, one after the other. -/
inductive Declarations : Bool → List Token → List Stmt → Prop
  | nil {inside : Bool} : Declarations inside [] []
  | cons {inside : Bool} {before after : List Token} {first : Stmt} {others : List Stmt} :
      Declaration inside before first → Declarations inside after others →
      Declarations inside (before ++ after) (first :: others)

end

/-- The tokens before the end derive the program. -/
def Derives (tokens : List Token) (program : Program) : Prop :=
  Declarations reading false tokens program

end LoxLang.Grammar
