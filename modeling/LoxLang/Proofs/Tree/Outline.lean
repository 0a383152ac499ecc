/-
# Outlines as texts in parentheses

An outline is a text in parentheses. Its words are the texts of constants, names and operators,
and every node but these is a list that begins with a word for it.

A tree is readable if its tokens are as they are scanned, no constant in it is a string and all
numbers are finite and have no sign. Then every word of its outline is the text of one token that
is no string and no parenthesis, and so all of them are solid.
-/

import LoxLang.Proofs.Number.Text
import LoxLang.Proofs.Tree.Notation
import LoxLang.Proofs.Tree.Renumbering
import LoxLang.Proofs.Tree.Sexp

namespace LoxLang

open Spelling

/-! ## Outlines as texts in parentheses -/

mutual

/-- What the outline of the expression is the text of. -/
def Expr.sexp : Expr → Sexp
  | .literal value => .atom value.outline
  | .grouping inner => .list [.atom "group", inner.sexp]
  | .unary operator operand => .list [.atom operator.lexeme, operand.sexp]
  | .binary left operator right | .logical left operator right =>
    .list [.atom operator.lexeme, left.sexp, right.sexp]
  | .variable name => .atom name.lexeme
  | .assign name value => .list [.atom "=", .atom name.lexeme, value.sexp]
  | .call callee _ arguments => .list (.atom "call" :: callee.sexp :: Expr.sexpEach arguments)

/-- The same of each of the expressions. -/
def Expr.sexpEach : List Expr → List Sexp
  | [] => []
  | first :: others => first.sexp :: Expr.sexpEach others

end

mutual

/-- What the outline of the statement is the text of. -/
def Stmt.sexp : Stmt → Sexp
  | .expression value => .list [.atom ";", value.sexp]
  | .print value => .list [.atom "print", value.sexp]
  | .var name none => .list [.atom "var", .atom name.lexeme]
  | .var name (some initial) => .list [.atom "var", .atom name.lexeme, initial.sexp]
  | .block body => .list (.atom "block" :: Stmt.sexpEach body)
  | .branch condition consequent none => .list [.atom "if", condition.sexp, consequent.sexp]
  | .branch condition consequent (some alternative) =>
    .list [.atom "if", condition.sexp, consequent.sexp, alternative.sexp]
  | .loop condition body => .list [.atom "while", condition.sexp, body.sexp]
  | .function name parameters body =>
    .list (.atom "fun" :: .atom name.lexeme :: .list ((parameters.map Token.lexeme).map .atom) ::
      Stmt.sexpEach body)
  | .ret _ none => .list [.atom "return"]
  | .ret _ (some value) => .list [.atom "return", value.sexp]

/-- The same of each of the statements. -/
def Stmt.sexpEach : List Stmt → List Sexp
  | [] => []
  | first :: others => first.sexp :: Stmt.sexpEach others

end

mutual

theorem Expr.outline_eq_text : ∀ node : Expr, node.outline = node.sexp.text
  | .literal _ | .variable _ => rfl
  | .grouping inner => by
      rw [outline, outline_eq_text inner, ← String.toList_inj]
      simp [sexp, Sexp.text, Sexp.textEach]
  | .unary _ operand => by
      rw [outline, outline_eq_text operand, ← String.toList_inj]
      simp [sexp, Sexp.text, Sexp.textEach]
  | .binary left _ right | .logical left _ right => by
      rw [outline, outline_eq_text left, outline_eq_text right, ← String.toList_inj]
      simp [sexp, Sexp.text, Sexp.textEach]
  | .assign _ value => by
      rw [outline, outline_eq_text value, ← String.toList_inj]
      simp [sexp, Sexp.text, Sexp.textEach]
  | .call callee _ arguments => by
      rw [outline, outline_eq_text callee, outlineEach_eq_textEach arguments, ← String.toList_inj]
      simp [sexp, Sexp.text, Sexp.textEach]

theorem Expr.outlineEach_eq_textEach : ∀ nodes : List Expr,
    outlineEach nodes = Sexp.textEach (sexpEach nodes)
  | [] => rfl
  | first :: others => by
      rw [outlineEach, outline_eq_text first, outlineEach_eq_textEach others]
      rfl

end

mutual

theorem Stmt.outline_eq_text : ∀ node : Stmt, node.outline = node.sexp.text
  | .expression value | .print value => by
      rw [outline, Expr.outline_eq_text value, ← String.toList_inj]
      simp [sexp, Sexp.text, Sexp.textEach]
  | .var _ none | .ret _ none => by
      rw [outline, ← String.toList_inj]
      simp [sexp, Sexp.text, Sexp.textEach]
  | .var _ (some value) | .ret _ (some value) => by
      rw [outline, Expr.outline_eq_text value, ← String.toList_inj]
      simp [sexp, Sexp.text, Sexp.textEach]
  | .block body => by
      rw [outline, outlineEach_eq_textEach body, ← String.toList_inj]
      simp [sexp, Sexp.text]
  | .branch condition consequent none => by
      rw [outline, Expr.outline_eq_text condition, outline_eq_text consequent,
        ← String.toList_inj]
      simp [sexp, Sexp.text, Sexp.textEach]
  | .branch condition consequent (some alternative) => by
      rw [outline, Expr.outline_eq_text condition, outline_eq_text consequent,
        outline_eq_text alternative, ← String.toList_inj]
      simp [sexp, Sexp.text, Sexp.textEach]
  | .loop condition body => by
      rw [outline, Expr.outline_eq_text condition, outline_eq_text body, ← String.toList_inj]
      simp [sexp, Sexp.text, Sexp.textEach]
  | .function _ names body => by
      rw [outline, outlineEach_eq_textEach body, ← String.toList_inj]
      simp only [sexp, Sexp.text, Sexp.textEach, Sexp.text_words]
      simp

theorem Stmt.outlineEach_eq_textEach : ∀ nodes : List Stmt,
    outlineEach nodes = Sexp.textEach (sexpEach nodes)
  | [] => rfl
  | first :: others => by
      rw [outlineEach, outline_eq_text first, outlineEach_eq_textEach others]
      rfl

end

/-! ## Outlines and lines -/

namespace Expr

variable (line : Nat → Nat)

mutual

@[simp]
theorem outline_renumber : ∀ node : Expr, (node.renumber line).outline = node.outline
  | .literal _ | .variable _ => rfl
  | .grouping inner => by rw [renumber, outline, outline, outline_renumber inner]
  | .unary _ operand => by
      rw [renumber, outline, outline, outline_renumber operand, Token.lexeme_renumber]
  | .binary left _ right | .logical left _ right => by
      rw [renumber, outline, outline, outline_renumber left, outline_renumber right,
        Token.lexeme_renumber]
  | .assign _ value => by
      rw [renumber, outline, outline, outline_renumber value, Token.lexeme_renumber]
  | .call callee _ arguments => by
      rw [renumber, outline, outline, outline_renumber callee, outlineEach_renumberEach arguments]

@[simp]
theorem outlineEach_renumberEach : ∀ nodes : List Expr,
    outlineEach (renumberEach line nodes) = outlineEach nodes
  | [] => rfl
  | first :: others => by
      rw [renumberEach, outlineEach, outlineEach, outline_renumber first,
        outlineEach_renumberEach others]

end

end Expr

namespace Stmt

variable (line : Nat → Nat)

mutual

@[simp]
theorem outline_renumber : ∀ node : Stmt, (node.renumber line).outline = node.outline
  | .expression _ | .print _ => by rw [renumber, outline, outline, Expr.outline_renumber]
  | .var _ none | .ret _ none => rfl
  | .var _ (some value) => by
      rw [renumber, Option.map_some, outline, outline, Expr.outline_renumber,
        Token.lexeme_renumber]
  | .ret _ (some value) => by
      rw [renumber, Option.map_some, outline, outline, Expr.outline_renumber]
  | .block body => by rw [renumber, outline, outline, outlineEach_renumberEach body]
  | .branch _ consequent none => by
      rw [renumber, outline, outline, Expr.outline_renumber, outline_renumber consequent]
  | .branch _ consequent (some alternative) => by
      rw [renumber, outline, outline, Expr.outline_renumber, outline_renumber consequent,
        outline_renumber alternative]
  | .loop _ body => by
      rw [renumber, outline, outline, Expr.outline_renumber, outline_renumber body]
  | .function _ parameters body => by
      rw [renumber, outline, outline, outlineEach_renumberEach body, List.map_map]
      rfl

@[simp]
theorem outlineEach_renumberEach : ∀ nodes : List Stmt,
    outlineEach (renumberEach line nodes) = outlineEach nodes
  | [] => rfl
  | first :: others => by
      rw [renumberEach, outlineEach, outlineEach, outline_renumber first,
        outlineEach_renumberEach others]

end

end Stmt

/-! ## What can be read back -/

/-- The constant can be told from its text: it is no string, and if it is a number, then one
that digits can be written for. -/
def Literal.Readable : Literal → Prop
  | .nil | .bool _ => True
  | .number value => value.isFinite = true ∧ Number.isNegative value = false
  | .string _ => False

/-- The expression is as it may be read from a source, with constants that can be told from their
texts. -/
inductive Expr.Readable : Expr → Prop
  | literal {value : Literal} : value.Readable → Readable (.literal value)
  | grouping {inner : Expr} : Readable inner → Readable (.grouping inner)
  | unary {operator : Token} {operand : Expr} :
      operator.kind = .bang ∨ operator.kind = .minus → operator.Genuine → Readable operand →
      Readable (.unary operator operand)
  | binary {left right : Expr} {operator : Token} :
      operator.kind ∈ binaryOperators → operator.Genuine → Readable left → Readable right →
      Readable (.binary left operator right)
  | logical {left right : Expr} {operator : Token} :
      operator.kind = .keyword .and ∨ operator.kind = .keyword .or → operator.Genuine →
      Readable left → Readable right → Readable (.logical left operator right)
  | «variable» {name : Token} :
      name.kind = .identifier → name.Genuine → Readable (.variable name)
  | assign {name : Token} {value : Expr} :
      name.kind = .identifier → name.Genuine → Readable value → Readable (.assign name value)
  | call {callee : Expr} {paren : Token} {arguments : List Expr} :
      paren.kind = .rightParen → paren.Genuine → Readable callee →
      (∀ argument ∈ arguments, Readable argument) → Readable (.call callee paren arguments)

/-- The statement is as it may be read from a source, with constants that can be told from their
texts. -/
inductive Stmt.Readable : Stmt → Prop
  | expression {value : Expr} : value.Readable → Readable (.expression value)
  | print {value : Expr} : value.Readable → Readable (.print value)
  | var {name : Token} {initial : Option Expr} :
      name.kind = .identifier → name.Genuine → (∀ node ∈ initial, node.Readable) →
      Readable (.var name initial)
  | block {body : List Stmt} : (∀ node ∈ body, Readable node) → Readable (.block body)
  | branch {condition : Expr} {consequent : Stmt} {alternative : Option Stmt} :
      condition.Readable → Readable consequent → (∀ node ∈ alternative, Readable node) →
      Readable (.branch condition consequent alternative)
  | loop {condition : Expr} {body : Stmt} :
      condition.Readable → Readable body → Readable (.loop condition body)
  | function {name : Token} {parameters : List Token} {body : List Stmt} :
      name.kind = .identifier → name.Genuine →
      (∀ parameter ∈ parameters, parameter.kind = .identifier ∧ parameter.Genuine) →
      (∀ node ∈ body, Readable node) → Readable (.function name parameters body)
  | ret {keyword : Token} {value : Option Expr} :
      keyword.kind = .keyword .return → keyword.Genuine → (∀ node ∈ value, node.Readable) →
      Readable (.ret keyword value)

/-! ## Words -/

/-- The token that the word is scanned as, without its line. -/
def Token.ofWord (word : String) : Token :=
  ((ofScan (scan word)).headD (eof 0)).renumber fun _ => 0

theorem Token.ofWord_of_lexeme {kind : TokenKind} {word : String} (h : Lexeme kind word.toList) :
    ofWord word = ⟨kind, word, payloadOf kind word.toList, 0⟩ := by
  rw [ofWord, scan_lexeme h]
  rfl

/-- A token that is as it is scanned is read back from its text. -/
theorem Token.Genuine.ofWord_lexeme {token : Token} (h : token.Genuine) :
    Token.ofWord token.lexeme = token.renumber fun _ => 0 := by
  rw [ofWord_of_lexeme h.lexeme, ← h.carries.eq_payloadOf]
  rfl

theorem Token.Genuine.lexeme_of_rightParen {token : Token} (h : token.Genuine)
    (hkind : token.kind = .rightParen) : token.lexeme = ")" := by
  have hlexeme := h.lexeme
  rw [hkind] at hlexeme
  cases hlexeme with
  | operator hlisted => exact String.toList_inj.mp (by simpa [operators] using hlisted)

theorem Token.Genuine.lexeme_of_keyword {token : Token} {keyword : Keyword} (h : token.Genuine)
    (hkind : token.kind = .keyword keyword) : token.lexeme = keyword.word := by
  have hlexeme := h.lexeme
  rw [hkind] at hlexeme
  generalize heq : token.lexeme.toList = text at hlexeme
  cases hlexeme with
  | operator hlisted => simp [operators] at hlisted
  | keyword => exact String.toList_inj.mp heq

theorem Token.Genuine.solid {token : Token} (h : token.Genuine)
    (hkind : token.kind ∉ [.string, .leftParen, .rightParen]) : Sexp.Solid token.lexeme :=
  Sexp.solid_of_lexeme h.lexeme hkind

/-- What stands at the heads of lists in outlines and is no operator. -/
def heads : List String :=
  ["group", "=", "call", ";", "print", "var", "block", "if", "while", "fun", "return"]

theorem solid_of_mem_heads {word : String} (h : word ∈ heads) : Sexp.Solid word := by
  revert word
  simp [heads, Sexp.Solid, Sexp.delimiters]

/-- The constant or the name that the token is. -/
def Expr.ofToken (token : Token) : Expr :=
  match token.kind, token.payload with
  | .keyword .nil, _ => .literal .nil
  | .keyword .true, _ => .literal (.bool true)
  | .keyword .false, _ => .literal (.bool false)
  | _, some payload => .literal payload.literal
  | _, none => .variable token

/-- A constant that can be told from its text is written as one token, which is read back. -/
theorem Literal.Readable.written {value : Literal} (h : value.Readable) :
    ∃ kind ∉ [.string, .leftParen, .rightParen], Lexeme kind value.outline.toList ∧
      Expr.ofToken (Token.ofWord value.outline) = .literal value := by
  match value with
  | .nil => exact ⟨_, by decide, .keyword .nil, congrArg _ (Token.ofWord_of_lexeme (.keyword .nil))⟩
  | .bool true =>
      exact ⟨_, by decide, .keyword .true, congrArg _ (Token.ofWord_of_lexeme (.keyword .true))⟩
  | .bool false =>
      exact ⟨_, by decide, .keyword .false, congrArg _ (Token.ofWord_of_lexeme (.keyword .false))⟩
  | .number x =>
      obtain ⟨hlexeme, hread⟩ := Number.display_read h.1 h.2
      refine ⟨.number, by decide, hlexeme, ?_⟩
      rw [outline, Token.ofWord_of_lexeme hlexeme, payloadOf, hread]
      rfl

/-! ## Readable trees have proper outlines -/

theorem not_delimiting_of_binary {kind : TokenKind} (h : kind ∈ binaryOperators) :
    kind ∉ [.string, .leftParen, .rightParen] := by
  revert kind
  decide

namespace Expr

theorem sexpEach_eq_map (nodes : List Expr) : sexpEach nodes = nodes.map sexp := by
  induction nodes with
  | nil => rfl
  | cons first others ih => rw [sexpEach, ih, List.map_cons]

theorem Readable.proper {node : Expr} (h : node.Readable) : node.sexp.Proper := by
  induction h with
  | literal hvalue =>
      obtain ⟨kind, hkind, hlexeme, -⟩ := hvalue.written
      exact .atom (Sexp.solid_of_lexeme hlexeme hkind)
  | grouping _ ih => exact .headed (solid_of_mem_heads (by decide)) (by simpa using ih)
  | unary hkind hoperator _ ih =>
      have hsolid := hoperator.solid (by rcases hkind with hkind | hkind <;> simp [hkind])
      exact .headed hsolid (by simpa using ih)
  | binary hkind hoperator _ _ hleft hright =>
      have hsolid := hoperator.solid (not_delimiting_of_binary hkind)
      exact .headed hsolid (by simp [hleft, hright])
  | logical hkind hoperator _ _ hleft hright =>
      have hsolid := hoperator.solid (by rcases hkind with hkind | hkind <;> simp [hkind])
      exact .headed hsolid (by simp [hleft, hright])
  | «variable» hkind hname => exact .atom (hname.solid (by simp [hkind]))
  | assign hkind hname _ ih =>
      have hsolid := hname.solid (by simp [hkind])
      exact .headed (solid_of_mem_heads (by decide)) (by simp [hsolid, ih])
  | call _ _ _ _ hcallee harguments =>
      refine .headed (solid_of_mem_heads (by decide)) (List.forall_mem_cons.mpr ⟨hcallee, ?_⟩)
      rw [sexpEach_eq_map]
      exact List.forall_mem_map.mpr harguments

end Expr

namespace Stmt

theorem sexpEach_eq_map (nodes : List Stmt) : sexpEach nodes = nodes.map sexp := by
  induction nodes with
  | nil => rfl
  | cons first others ih => rw [sexpEach, ih, List.map_cons]

theorem proper_headed {word : String} {items : List Sexp} (hword : word ∈ heads)
    (h : ∀ item ∈ items, item.Proper) : (Sexp.list (.atom word :: items)).Proper :=
  .headed (solid_of_mem_heads hword) h

theorem proper_sexpEach {nodes : List Stmt} (h : ∀ node ∈ nodes, node.sexp.Proper) :
    ∀ item ∈ sexpEach nodes, item.Proper := by
  rw [sexpEach_eq_map]
  exact List.forall_mem_map.mpr h

theorem Readable.proper {node : Stmt} (h : node.Readable) : node.sexp.Proper := by
  induction h with
  | expression hvalue | print hvalue =>
      exact proper_headed (by decide) (by simpa using hvalue.proper)
  | @var name initial hkind hname hinitial =>
      have hsolid := hname.solid (by simp [hkind])
      cases initial with
      | none => exact proper_headed (by decide) (by simpa using hsolid)
      | some value =>
          exact proper_headed (by decide) (by simp [hsolid, (hinitial value rfl).proper])
  | block _ ih => exact proper_headed (by decide) (proper_sexpEach ih)
  | @branch condition consequent alternative hcondition _ _ hconsequent halternative =>
      cases alternative with
      | none => exact proper_headed (by decide) (by simp [hcondition.proper, hconsequent])
      | some alternative =>
          have halternative := halternative alternative rfl
          exact proper_headed (by decide)
            (by simp [hcondition.proper, hconsequent, halternative])
  | loop hcondition _ hbody =>
      exact proper_headed (by decide) (by simp [hcondition.proper, hbody])
  | @function name parameters body hkind hname hparameters _ hbody =>
      have hsolid := hname.solid (by simp [hkind])
      have hnames : (Sexp.list ((parameters.map Token.lexeme).map .atom)).Proper := by
        refine .list (List.forall_mem_map.mpr (List.forall_mem_map.mpr fun parameter hmem => ?_))
        obtain ⟨hkind, hparameter⟩ := hparameters parameter hmem
        exact .atom (hparameter.solid (by simp [hkind]))
      exact proper_headed (by decide)
        (List.forall_mem_cons.mpr ⟨.atom hsolid,
          List.forall_mem_cons.mpr ⟨hnames, proper_sexpEach hbody⟩⟩)
  | @ret keyword value _ _ hvalue =>
      cases value with
      | none => exact proper_headed (by decide) nofun
      | some value => exact proper_headed (by decide) (by simpa using (hvalue value rfl).proper)

end Stmt

end LoxLang
