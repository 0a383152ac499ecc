/-
# Trees that are read are regular

A tree may hold any token for an operator, any number of arguments and a return anywhere.
A regular one does not: its operators are those that evaluation knows, no function has
more than 255 parameters and no call more than 255 arguments, and a return stands inside
the body of a function.

Every program that is derived in the strict reading is regular, and so is every program
that is read.
-/

import LoxLang.Proofs.Grammar.Outcome

namespace LoxLang

/-- The kinds of token that are binary operators. -/
def binaryOperators : List TokenKind :=
  [.plus, .minus, .star, .slash, .greater, .greaterEqual, .less, .lessEqual, .equalEqual,
    .bangEqual]

/-- All operators in the expression are of their kind, and no call has too many arguments. -/
inductive Expr.Regular : Expr → Prop
  | literal {value : Literal} : Regular (.literal value)
  | grouping {inner : Expr} : inner.Regular → Regular (.grouping inner)
  | unary {operator : Token} {operand : Expr} :
      operator.kind = .bang ∨ operator.kind = .minus → operand.Regular →
      Regular (.unary operator operand)
  | binary {left right : Expr} {operator : Token} :
      operator.kind ∈ binaryOperators → left.Regular → right.Regular →
      Regular (.binary left operator right)
  | logical {left right : Expr} {operator : Token} :
      operator.kind = .keyword .and ∨ operator.kind = .keyword .or → left.Regular →
      right.Regular → Regular (.logical left operator right)
  | variable {name : Token} : Regular (.variable name)
  | assign {name : Token} {value : Expr} : value.Regular → Regular (.assign name value)
  | call {callee : Expr} {paren : Token} {arguments : List Expr} :
      callee.Regular → (∀ argument ∈ arguments, argument.Regular) → arguments.length ≤ 255 →
      Regular (.call callee paren arguments)

/-- All expressions in the statement are regular, no function has too many parameters,
and no return stands outside of functions. The flag tells whether the statement itself
is inside one. -/
inductive Stmt.Regular : Bool → Stmt → Prop
  | expression {inside : Bool} {value : Expr} : value.Regular → Regular inside (.expression value)
  | print {inside : Bool} {value : Expr} : value.Regular → Regular inside (.print value)
  | var {inside : Bool} {name : Token} {initial : Option Expr} :
      (∀ node ∈ initial, node.Regular) → Regular inside (.var name initial)
  | block {inside : Bool} {body : List Stmt} :
      (∀ node ∈ body, Regular inside node) → Regular inside (.block body)
  | branch {inside : Bool} {condition : Expr} {consequent : Stmt} {alternative : Option Stmt} :
      condition.Regular → Regular inside consequent →
      (∀ node ∈ alternative, Regular inside node) →
      Regular inside (.branch condition consequent alternative)
  | loop {inside : Bool} {condition : Expr} {body : Stmt} :
      condition.Regular → Regular inside body → Regular inside (.loop condition body)
  | function {inside : Bool} {name : Token} {parameters : List Token} {body : List Stmt} :
      parameters.length ≤ 255 → (∀ node ∈ body, Regular true node) →
      Regular inside (.function name parameters body)
  | ret {keyword : Token} {value : Option Expr} :
      (∀ node ∈ value, node.Regular) → Regular true (.ret keyword value)

namespace Grammar

variable {tokens : List Token} {value : Expr}

/-! ## Expressions -/

/-- A level makes binary nodes, or logical ones, as the kind of its operators has it. -/
theorem Level.node_cases {level : Level} {kind : TokenKind} (h : kind ∈ level.operators) :
    (kind ∈ binaryOperators ∧ level.node = .binary) ∨
      ((kind = .keyword .and ∨ kind = .keyword .or) ∧ level.node = .logical) := by
  cases level with
  | disjunction => exact .inr ⟨.inr (List.mem_singleton.mp h), rfl⟩
  | conjunction => exact .inr ⟨.inl (List.mem_singleton.mp h), rfl⟩
  | equality | comparison | term | factor =>
      refine .inl ⟨?_, rfl⟩
      revert kind
      decide

/-- The node that a level makes of regular operands and an operator of its own is regular. -/
theorem Level.regular_node {level : Level} {left right : Expr} {operator : Token}
    (hoperator : operator.kind ∈ level.operators) (hleft : left.Regular) (hright : right.Regular) :
    (level.node left operator right).Regular := by
  rcases Level.node_cases hoperator with ⟨hkind, hnode⟩ | ⟨hkind, hnode⟩
  · rw [hnode]
    exact .binary hkind hleft hright
  · rw [hnode]
    exact .logical hkind hleft hright

mutual

theorem Phrase.regular : ∀ {rule : Rule} {tokens : List Token} {value : Expr},
    Phrase .strict rule tokens value → value.Regular
  | _, _, _, .assign _ _ hvalue => .assign hvalue.regular
  | _, _, _, .misassign _ htarget _ _ _ => htarget.regular
  | _, _, _, .unassigned h => h.regular
  | _, _, _, .join hleft hoperator hright =>
      Level.regular_node hoperator hleft.regular hright.regular
  | _, _, _, .single h => h.regular
  | _, _, _, .signed hoperator h => .unary hoperator h.regular
  | _, _, _, .unsigned h => h.regular
  | _, _, _, .callBare hcallee _ _ => .call hcallee.regular nofun (Nat.zero_le _)
  | _, _, _, .callWith hcallee _ harguments hbound _ =>
      .call hcallee.regular harguments.regular (hbound rfl)
  | _, _, _, .uncalled h => h.regular
  | _, _, _, .false _ => .literal
  | _, _, _, .true _ => .literal
  | _, _, _, .nil _ => .literal
  | _, _, _, .constant _ _ => .literal
  | _, _, _, .name _ => .variable
  | _, _, _, .grouping _ hinner _ => .grouping hinner.regular

theorem Arguments.regular : ∀ {tokens : List Token} {values : List Expr},
    Arguments .strict tokens values → ∀ value ∈ values, value.Regular
  | _, _, .last h => List.forall_mem_singleton.mpr h.regular
  | _, _, .more h _ hothers => List.forall_mem_cons.mpr ⟨h.regular, hothers.regular⟩

end

theorem OptionalPhrase.regular {value : Option Expr} (h : OptionalPhrase .strict tokens value) :
    ∀ node ∈ value, node.Regular := by
  cases h with
  | absent => nofun
  | present h =>
      rintro _ ⟨⟩
      exact h.regular

theorem Terminated.regular (h : Terminated .strict tokens value) : value.Regular := by
  cases h with
  | intro h _ => exact h.regular

theorem Condition.regular (h : Condition .strict tokens value) : value.Regular := by
  cases h with
  | intro _ h _ => exact h.regular

/-! ## Statements -/

variable {inside : Bool} {stmt : Stmt}

theorem Variable.regular (h : Variable .strict tokens stmt) : stmt.Regular inside := by
  cases h with
  | bare _ _ _ => exact .var nofun
  | initial _ _ _ h _ =>
      refine .var ?_
      rintro _ ⟨⟩
      exact h.regular

theorem ParameterList.length_le {names : List Token} (h : ParameterList .strict tokens names) :
    names.length ≤ 255 := by
  cases h with
  | none _ _ => exact Nat.zero_le _
  | some _ _ hbound _ => exact hbound rfl

theorem Initial.regular {initial : Option Stmt} (h : Initial .strict tokens initial) :
    ∀ node ∈ initial, node.Regular inside := by
  cases h with
  | none _ => nofun
  | declared h =>
      rintro _ ⟨⟩
      exact h.regular
  | expression h =>
      rintro _ ⟨⟩
      exact .expression h.regular

/-- The loop that regular clauses and a regular body stand for is regular. -/
theorem regular_unrolled {initial : Option Stmt} {condition step : Option Expr} {body : Stmt}
    (hinitial : ∀ node ∈ initial, node.Regular inside)
    (hcondition : ∀ node ∈ condition, node.Regular) (hstep : ∀ node ∈ step, node.Regular)
    (hbody : body.Regular inside) : (unrolled initial condition step body).Regular inside := by
  refine unrolled_induction ?_ (fun _ => .expression) (fun _ _ => .loop) .literal hinitial
    hcondition hstep hbody
  exact fun first second hfirst hsecond => .block (by simp [hfirst, hsecond])

theorem Parts.regular_unrolled {initial : Option Stmt} {condition step : Option Expr}
    {body : Stmt} (h : Parts .strict tokens initial condition step) (hbody : body.Regular inside) :
    (unrolled initial condition step body).Regular inside := by
  cases h with
  | intro _ hinitial hcondition _ hstep _ =>
      exact Grammar.regular_unrolled hinitial.regular hcondition.regular hstep.regular hbody

mutual

theorem Statement.regular : ∀ {inside ended : Bool} {tokens : List Token} {stmt : Stmt},
    Statement .strict inside ended tokens stmt → stmt.Regular inside
  | _, _, _, _, .expression h => .expression h.regular
  | _, _, _, _, .print _ h => .print h.regular
  | _, _, _, _, .ret _ hinside hvalue _ => by
      rw [hinside rfl]
      exact .ret hvalue.regular
  | _, _, _, _, .loop _ htest hbody => .loop htest.regular hbody.regular
  | _, _, _, _, .counting _ hparts hbody => hparts.regular_unrolled hbody.regular
  | _, _, _, _, .branch _ htest hconsequent => .branch htest.regular hconsequent.regular nofun
  | _, _, _, _, .branchElse _ htest hconsequent _ halternative => by
      refine .branch htest.regular hconsequent.regular ?_
      rintro _ ⟨⟩
      exact halternative.regular
  | _, _, _, _, .block _ hbody _ => .block hbody.regular

theorem Declaration.regular : ∀ {inside : Bool} {tokens : List Token} {stmt : Stmt},
    Declaration .strict inside tokens stmt → stmt.Regular inside
  | _, _, _, .function _ _ hnames _ hbody _ => .function hnames.length_le hbody.regular
  | _, _, _, .declared h => h.regular
  | _, _, _, .statement h => h.regular

theorem Declarations.regular : ∀ {inside : Bool} {tokens : List Token} {body : List Stmt},
    Declarations .strict inside tokens body → ∀ node ∈ body, node.Regular inside
  | _, _, _, .nil => nofun
  | _, _, _, .cons h hothers => List.forall_mem_cons.mpr ⟨h.regular, hothers.regular⟩

end

end Grammar

/-- A program that is read is regular, with no return at its top level. -/
theorem Program.regular_of_ofTokens {tokens : List Token} {program : Program}
    (h : ofTokens tokens = .ok program) : ∀ node ∈ program, node.Regular false :=
  Grammar.Declarations.regular (derives_of_ofTokens h)

end LoxLang
