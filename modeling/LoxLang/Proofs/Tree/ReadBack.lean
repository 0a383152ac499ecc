/-
# Outlines read back

The outline of a readable tree can be read back: what it stands for is the tree, with no lines
for its tokens. A word is read by scanning it, and the head of a list tells the node. Operators
are the heads that are told apart by their kind and by how many operands there are, since a minus
may have one or two. Names never stand at the head of a list, so the words for nodes may be names
as well.

Two readable trees of one outline are therefore the same but for the lines of their tokens.
-/

import LoxLang.Proofs.Tree.Outline

namespace LoxLang

/-! ## Reading an outline -/

/-- The node that a list stands for, from the token at its head and what its other items stand
for. -/
def Expr.ofParts (head : Token) (operands : List Expr) : Option Expr :=
  match head.kind, operands with
  | .equal, [.variable name, value] => some (.assign name value)
  | .identifier, first :: others =>
    some (if head.lexeme = "call" then .call first (.ofWord ")") others else .grouping first)
  | .keyword _, [left, right] => some (.logical left head right)
  | _, [operand] => some (.unary head operand)
  | _, [left, right] => some (.binary left head right)
  | _, _ => none

mutual

/-- The expression that a text in parentheses is the outline of. -/
def Expr.ofSexp? : Sexp → Option Expr
  | .atom word => some (.ofToken (.ofWord word))
  | .list (.atom head :: items) => (Expr.ofEach? items).bind (Expr.ofParts (.ofWord head))
  | .list _ => none

/-- The expressions that texts in parentheses are the outlines of. -/
def Expr.ofEach? : List Sexp → Option (List Expr)
  | [] => some []
  | first :: others => return (← Expr.ofSexp? first) :: (← Expr.ofEach? others)

end

/-- The token that a text in parentheses is a word for. -/
def Token.ofSexp? : Sexp → Option Token
  | .atom word => some (.ofWord word)
  | .list _ => none

mutual

/-- The statement that a text in parentheses is the outline of. -/
def Stmt.ofSexp? : Sexp → Option Stmt
  | .list [.atom ";", value] => return .expression (← Expr.ofSexp? value)
  | .list [.atom "print", value] => return .print (← Expr.ofSexp? value)
  | .list [.atom "var", name] => return .var (← Token.ofSexp? name) none
  | .list [.atom "var", name, initial] =>
    return .var (← Token.ofSexp? name) (some (← Expr.ofSexp? initial))
  | .list (.atom "block" :: body) => return .block (← Stmt.ofEach? body)
  | .list [.atom "if", condition, consequent] =>
    return .branch (← Expr.ofSexp? condition) (← Stmt.ofSexp? consequent) none
  | .list [.atom "if", condition, consequent, alternative] =>
    return .branch (← Expr.ofSexp? condition) (← Stmt.ofSexp? consequent)
      (some (← Stmt.ofSexp? alternative))
  | .list [.atom "while", condition, body] =>
    return .loop (← Expr.ofSexp? condition) (← Stmt.ofSexp? body)
  | .list (.atom "fun" :: name :: .list parameters :: body) =>
    return .function (← Token.ofSexp? name) (← parameters.mapM Token.ofSexp?)
      (← Stmt.ofEach? body)
  | .list [.atom "return"] => some (.ret (.ofWord "return") none)
  | .list [.atom "return", value] =>
    return .ret (.ofWord "return") (some (← Expr.ofSexp? value))
  | _ => none

/-- The statements that texts in parentheses are the outlines of. -/
def Stmt.ofEach? : List Sexp → Option (List Stmt)
  | [] => some []
  | first :: others => return (← Stmt.ofSexp? first) :: (← Stmt.ofEach? others)

end

/-! ## Reading back -/

namespace Expr

variable {operator : Token} {left right operand : Expr}

theorem ofParts_unary (h : operator.kind = .bang ∨ operator.kind = .minus) :
    ofParts operator [operand] = some (.unary operator operand) := by
  rcases h with h | h <;> simp [ofParts, h]

theorem ofParts_binary (h : operator.kind ∈ binaryOperators) :
    ofParts operator [left, right] = some (.binary left operator right) := by
  simp only [binaryOperators, List.mem_cons, List.not_mem_nil, or_false] at h
  rcases h with h | h | h | h | h | h | h | h | h | h <;> simp [ofParts, h]

theorem ofParts_logical (h : operator.kind = .keyword .and ∨ operator.kind = .keyword .or) :
    ofParts operator [left, right] = some (.logical left operator right) := by
  rcases h with h | h <;> simp [ofParts, h]

theorem ofSexp?_name {name : Token} (hkind : name.kind = .identifier) (h : name.Genuine) :
    ofSexp? (.atom name.lexeme) = some (.variable (name.renumber fun _ => 0)) := by
  have hpayload : name.payload = none := by
    rw [h.carries.eq_payloadOf, hkind]
    rfl
  rw [ofSexp?, h.ofWord_lexeme, ofToken, Token.kind_renumber, Token.payload_renumber, hkind,
    hpayload]

/-- What the head of a list and its other items are read as makes the node. -/
theorem ofSexp?_list {head : String} {token : Token} {operands : List Expr}
    (hhead : Token.ofWord head = token)
    (h : ∀ node ∈ operands, ofSexp? node.sexp = some (node.renumber fun _ => 0)) :
    ofSexp? (.list (.atom head :: sexpEach operands)) =
      ofParts token (renumberEach (fun _ => 0) operands) := by
  have heach : ofEach? (sexpEach operands) = some (renumberEach (fun _ => 0) operands) := by
    induction operands with
    | nil => rfl
    | cons first others ih =>
        obtain ⟨hfirst, hothers⟩ := List.forall_mem_cons.mp h
        rw [sexpEach, ofEach?, hfirst, ih hothers]
        rfl
  rw [ofSexp?, heach, Option.bind_some, hhead]

/-- What is read off the outline of an expression is the expression without its lines. -/
theorem Readable.ofSexp?_sexp {node : Expr} (h : node.Readable) :
    ofSexp? node.sexp = some (node.renumber fun _ => 0) := by
  induction h with
  | literal hvalue =>
      obtain ⟨-, -, -, hread⟩ := hvalue.written
      rw [sexp, ofSexp?, hread]
      rfl
  | @grouping inner _ ih =>
      have hhead : Token.ofWord "group" = .mark .identifier "group" := by cbv
      exact @ofSexp?_list "group" _ [inner] hhead (List.forall_mem_singleton.mpr ih)
  | @unary operator operand hkind hoperator _ ih =>
      have hlist := @ofSexp?_list _ _ [operand] hoperator.ofWord_lexeme
        (List.forall_mem_singleton.mpr ih)
      exact hlist.trans (ofParts_unary hkind)
  | @binary left right operator hkind hoperator _ _ hleft hright =>
      have hlist := @ofSexp?_list _ _ [left, right] hoperator.ofWord_lexeme
        (by simp [hleft, hright])
      exact hlist.trans (ofParts_binary hkind)
  | @logical left right operator hkind hoperator _ _ hleft hright =>
      have hlist := @ofSexp?_list _ _ [left, right] hoperator.ofWord_lexeme
        (by simp [hleft, hright])
      exact hlist.trans (ofParts_logical hkind)
  | «variable» hkind hname => exact ofSexp?_name hkind hname
  | @assign name value hkind hname _ ih =>
      have hhead : Token.ofWord "=" = Notation.equals := by cbv
      have htarget : ofSexp? (sexp (.variable name)) = _ := ofSexp?_name hkind hname
      exact @ofSexp?_list "=" _ [.variable name, value] hhead
        (List.forall_mem_cons.mpr ⟨htarget, List.forall_mem_singleton.mpr ih⟩)
  | @call callee paren arguments hkind hparen _ _ hcallee harguments =>
      have hhead : Token.ofWord "call" = .mark .identifier "call" := by cbv
      rw [renumber, ← hparen.ofWord_lexeme, hparen.lexeme_of_rightParen hkind]
      exact @ofSexp?_list "call" _ (callee :: arguments) hhead
        (List.forall_mem_cons.mpr ⟨hcallee, harguments⟩)

end Expr

namespace Stmt

variable {name : Token} {names : List Token}

theorem ofSexp?_names (h : ∀ name ∈ names, name.kind = .identifier ∧ name.Genuine) :
    ((names.map Token.lexeme).map Sexp.atom).mapM Token.ofSexp? =
      some (names.map (Token.renumber fun _ => 0)) := by
  induction names with
  | nil => rfl
  | cons name names ih =>
      obtain ⟨⟨-, hname⟩, hnames⟩ := List.forall_mem_cons.mp h
      rw [List.map_cons, List.map_cons, List.mapM_cons, ih hnames, Token.ofSexp?,
        hname.ofWord_lexeme]
      rfl

theorem ofEach?_sexpEach {nodes : List Stmt}
    (h : ∀ node ∈ nodes, ofSexp? node.sexp = some (node.renumber fun _ => 0)) :
    ofEach? (sexpEach nodes) = some (renumberEach (fun _ => 0) nodes) := by
  induction nodes with
  | nil => rfl
  | cons first others ih =>
      obtain ⟨hfirst, hothers⟩ := List.forall_mem_cons.mp h
      rw [sexpEach, ofEach?, hfirst, ih hothers]
      rfl

/-- What is read off the outline of a statement is the statement without its lines. -/
theorem Readable.ofSexp?_sexp {node : Stmt} (h : node.Readable) :
    ofSexp? node.sexp = some (node.renumber fun _ => 0) := by
  induction h with
  | expression hvalue | print hvalue =>
      rw [sexp, ofSexp?, hvalue.ofSexp?_sexp]
      rfl
  | @var name initial hkind hname hinitial =>
      cases initial with
      | none =>
          rw [sexp, ofSexp?, Token.ofSexp?, hname.ofWord_lexeme]
          rfl
      | some value =>
          rw [sexp, ofSexp?, Token.ofSexp?, hname.ofWord_lexeme,
            (hinitial value rfl).ofSexp?_sexp]
          rfl
  | block _ ih =>
      rw [sexp, ofSexp?, ofEach?_sexpEach ih]
      rfl
  | @branch condition consequent alternative hcondition _ _ hconsequent halternative =>
      cases alternative with
      | none =>
          rw [sexp, ofSexp?, hcondition.ofSexp?_sexp, hconsequent]
          rfl
      | some alternative =>
          rw [sexp, ofSexp?, hcondition.ofSexp?_sexp, hconsequent, halternative alternative rfl]
          rfl
  | loop hcondition _ hbody =>
      rw [sexp, ofSexp?, hcondition.ofSexp?_sexp, hbody]
      rfl
  | function hkind hname hparameters _ hbody =>
      rw [sexp, ofSexp?, Token.ofSexp?, hname.ofWord_lexeme, ofSexp?_names hparameters,
        ofEach?_sexpEach hbody]
      rfl
  | @ret keyword value hkind hkeyword hvalue =>
      have hword : Token.ofWord "return" = keyword.renumber fun _ => 0 := by
        rw [← hkeyword.ofWord_lexeme, hkeyword.lexeme_of_keyword hkind]
        rfl
      cases value with
      | none =>
          rw [sexp, ofSexp?, hword]
          rfl
      | some value =>
          rw [sexp, ofSexp?, hword, (hvalue value rfl).ofSexp?_sexp]
          rfl

end Stmt

/-! ## One outline, one tree -/

/-- Readable expressions have one outline if they are the same but for the lines of their
tokens, and only then. -/
theorem Expr.Readable.outline_eq_iff {node other : Expr} (h : node.Readable)
    (hother : other.Readable) :
    node.outline = other.outline ↔ (node.renumber fun _ => 0) = other.renumber fun _ => 0 := by
  constructor
  · intro heq
    rw [outline_eq_text, outline_eq_text] at heq
    have hread := h.ofSexp?_sexp
    rw [Sexp.text_inj h.proper hother.proper heq, hother.ofSexp?_sexp] at hread
    exact (Option.some.inj hread).symm
  · intro heq
    rw [← outline_renumber (fun _ => 0) node, heq, outline_renumber]

namespace Stmt

/-- So it is with readable statements. -/
theorem Readable.outline_eq_iff {node other : Stmt} (h : node.Readable) (hother : other.Readable) :
    node.outline = other.outline ↔ (node.renumber fun _ => 0) = other.renumber fun _ => 0 := by
  constructor
  · intro heq
    rw [outline_eq_text, outline_eq_text] at heq
    have hread := h.ofSexp?_sexp
    rw [Sexp.text_inj h.proper hother.proper heq, hother.ofSexp?_sexp] at hread
    exact (Option.some.inj hread).symm
  · intro heq
    rw [← outline_renumber (fun _ => 0) node, heq, outline_renumber]

/-- And with lists of them, one by one. -/
theorem map_outline_eq_iff {nodes others : List Stmt} (h : ∀ node ∈ nodes, node.Readable)
    (hothers : ∀ node ∈ others, node.Readable) :
    nodes.map outline = others.map outline ↔
      renumberEach (fun _ => 0) nodes = renumberEach (fun _ => 0) others := by
  induction nodes generalizing others with
  | nil => cases others <;> simp [renumberEach]
  | cons first nodes ih =>
      cases others with
      | nil => simp [renumberEach]
      | cons second others =>
          obtain ⟨hfirst, hnodes⟩ := List.forall_mem_cons.mp h
          obtain ⟨hsecond, hothers⟩ := List.forall_mem_cons.mp hothers
          rw [List.map_cons, List.map_cons, List.cons_eq_cons, hfirst.outline_eq_iff hsecond,
            ih hnodes hothers, renumberEach, renumberEach, List.cons_eq_cons]

end Stmt

end LoxLang
