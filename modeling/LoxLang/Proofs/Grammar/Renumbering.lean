/-
# Derivations of renumbered tokens

What tokens derive goes by their kinds, and not by their lines. So if all of them are on
other lines they derive the same tree with its tokens on these lines. And what derives
two programs, one after the other, derives the program that is both.
-/

import LoxLang.Proofs.Grammar.Outcome
import LoxLang.Proofs.Tree.Renumbering
import Mathlib.Data.List.TakeWhile

namespace LoxLang

namespace Grammar

variable {reading : Reading} (line : Nat → Nat) {tokens : List Token} {value : Expr}

/-! ## Expressions -/

theorem Level.renumber_node (level : Level) (left right : Expr) (operator : Token) :
    (level.node left operator right).renumber line =
      level.node (left.renumber line) (operator.renumber line) (right.renumber line) := by
  cases level <;> rfl

theorem renumber_ne_variable (h : ∀ name, value ≠ .variable name) (name : Token) :
    value.renumber line ≠ .variable name := by
  cases value with
  | «variable» name => exact absurd rfl (h name)
  | _ => nofun

mutual

theorem Phrase.renumber : ∀ {rule : Rule} {tokens : List Token} {value : Expr},
    Phrase reading rule tokens value →
      Phrase reading rule (tokens.map (Token.renumber line)) (value.renumber line)
  | _, _, _, .assign hname hequals hvalue => .assign hname hequals hvalue.renumber
  | _, _, _, .misassign hreading htarget hvariable hequals hvalue => by
      rw [List.map_append]
      exact .misassign hreading htarget.renumber (renumber_ne_variable line hvariable) hequals
        hvalue.renumber
  | _, _, _, .unassigned h => .unassigned h.renumber
  | _, _, _, .join hleft hoperator hright => by
      rw [List.map_append, Level.renumber_node]
      exact .join hleft.renumber hoperator hright.renumber
  | _, _, _, .single h => .single h.renumber
  | _, _, _, .signed hoperator h => .signed hoperator h.renumber
  | _, _, _, .unsigned h => .unsigned h.renumber
  | _, _, _, .callBare hcallee hopening hclosing => by
      rw [List.map_append]
      exact .callBare hcallee.renumber hopening hclosing
  | _, _, _, .callWith hcallee hopening harguments hbound hclosing => by
      rw [List.map_append, List.map_cons, List.map_append]
      refine .callWith hcallee.renumber hopening harguments.renumber ?_ hclosing
      rw [Expr.renumberEach_eq_map, List.length_map]
      exact hbound
  | _, _, _, .uncalled h => .uncalled h.renumber
  | _, _, _, .false hkind => .false hkind
  | _, _, _, .true hkind => .true hkind
  | _, _, _, .nil hkind => .nil hkind
  | _, _, _, .constant hkind hpayload => .constant hkind hpayload
  | _, _, _, .name hkind => .name hkind
  | _, _, _, .grouping hopening hinner hclosing => by
      rw [List.map_cons, List.map_append]
      exact .grouping hopening hinner.renumber hclosing

theorem Arguments.renumber : ∀ {tokens : List Token} {values : List Expr},
    Arguments reading tokens values →
      Arguments reading (tokens.map (Token.renumber line)) (Expr.renumberEach line values)
  | _, _, .last h => .last h.renumber
  | _, _, .more h hcomma hothers => by
      rw [List.map_append]
      exact .more h.renumber hcomma hothers.renumber

end

theorem OptionalPhrase.renumber {value : Option Expr} (h : OptionalPhrase reading tokens value) :
    OptionalPhrase reading (tokens.map (Token.renumber line)) (value.map (Expr.renumber line)) := by
  cases h with
  | absent => exact .absent
  | present h => exact .present (h.renumber line)

theorem Terminated.renumber (h : Terminated reading tokens value) :
    Terminated reading (tokens.map (Token.renumber line)) (value.renumber line) := by
  cases h with
  | intro h hsemicolon =>
      rw [List.map_append]
      exact .intro (h.renumber line) hsemicolon

theorem Condition.renumber (h : Condition reading tokens value) :
    Condition reading (tokens.map (Token.renumber line)) (value.renumber line) := by
  cases h with
  | intro hopening h hclosing =>
      rw [List.map_cons, List.map_append]
      exact .intro hopening (h.renumber line) hclosing

/-! ## Statements -/

variable {inside : Bool} {names : List Token} {stmt : Stmt}

theorem Variable.renumber (h : Variable reading tokens stmt) :
    Variable reading (tokens.map (Token.renumber line)) (stmt.renumber line) := by
  cases h with
  | bare hword hname hsemicolon => exact .bare hword hname hsemicolon
  | initial hword hname hequals h hsemicolon =>
      rw [List.map_cons, List.map_cons, List.map_cons, List.map_append]
      exact .initial hword hname hequals (h.renumber line) hsemicolon

theorem Parameters.renumber (h : Parameters tokens names) :
    Parameters (tokens.map (Token.renumber line)) (names.map (Token.renumber line)) := by
  induction h with
  | last hname => exact .last hname
  | more hname hcomma _ ih => exact .more hname hcomma ih

theorem ParameterList.renumber (h : ParameterList reading tokens names) :
    ParameterList reading (tokens.map (Token.renumber line)) (names.map (Token.renumber line)) := by
  cases h with
  | none hopening hclosing => exact .none hopening hclosing
  | some hopening h hbound hclosing =>
      rw [List.map_cons, List.map_append]
      refine .some hopening (h.renumber line) ?_ hclosing
      rw [List.length_map]
      exact hbound

theorem Initial.renumber {initial : Option Stmt} (h : Initial reading tokens initial) :
    Initial reading (tokens.map (Token.renumber line)) (initial.map (Stmt.renumber line)) := by
  cases h with
  | none hsemicolon => exact .none hsemicolon
  | declared h => exact .declared (h.renumber line)
  | expression h => exact .expression (h.renumber line)

theorem Parts.renumber {initial : Option Stmt} {condition step : Option Expr}
    (h : Parts reading tokens initial condition step) :
    Parts reading (tokens.map (Token.renumber line)) (initial.map (Stmt.renumber line))
      (condition.map (Expr.renumber line)) (step.map (Expr.renumber line)) := by
  cases h with
  | intro hopening hinitial hcondition hsemicolon hstep hclosing =>
      rw [List.map_cons, List.map_append, List.map_append, List.map_cons, List.map_append]
      exact .intro hopening (hinitial.renumber line) (hcondition.renumber line) hsemicolon
        (hstep.renumber line) hclosing

theorem renumber_unrolled (initial : Option Stmt) (condition step : Option Expr) (body : Stmt) :
    (unrolled initial condition step body).renumber line =
      unrolled (initial.map (Stmt.renumber line)) (condition.map (Expr.renumber line))
        (step.map (Expr.renumber line)) (body.renumber line) := by
  cases initial <;> cases condition <;> cases step <;> rfl

mutual

theorem Statement.renumber : ∀ {inside ended : Bool} {tokens : List Token} {stmt : Stmt},
    Statement reading inside ended tokens stmt →
      Statement reading inside ended (tokens.map (Token.renumber line)) (stmt.renumber line)
  | _, _, _, _, .expression h => .expression (h.renumber line)
  | _, _, _, _, .print hword h => .print hword (h.renumber line)
  | _, _, _, _, .ret hword hinside h hsemicolon => by
      rw [List.map_cons, List.map_append]
      exact .ret hword hinside (h.renumber line) hsemicolon
  | _, _, _, _, .loop hword hcondition hbody => by
      rw [List.map_cons, List.map_append]
      exact .loop hword (hcondition.renumber line) hbody.renumber
  | _, _, _, _, .counting hword hparts hbody => by
      rw [List.map_cons, List.map_append, renumber_unrolled]
      exact .counting hword (hparts.renumber line) hbody.renumber
  | _, _, _, _, .branch hword hcondition hconsequent => by
      rw [List.map_cons, List.map_append]
      exact .branch hword (hcondition.renumber line) hconsequent.renumber
  | _, _, _, _, .branchElse hword hcondition hconsequent hother halternative => by
      rw [List.map_cons, List.map_append, List.map_append]
      exact .branchElse hword (hcondition.renumber line) hconsequent.renumber hother
        halternative.renumber
  | _, _, _, _, .block hopening hbody hclosing => by
      rw [List.map_cons, List.map_append]
      exact .block hopening hbody.renumber hclosing

theorem Declaration.renumber : ∀ {inside : Bool} {tokens : List Token} {stmt : Stmt},
    Declaration reading inside tokens stmt →
      Declaration reading inside (tokens.map (Token.renumber line)) (stmt.renumber line)
  | _, _, _, .function hword hname hparameters hopening hbody hclosing => by
      rw [List.map_cons, List.map_cons, List.map_append, List.map_cons, List.map_append]
      exact .function hword hname (hparameters.renumber line) hopening hbody.renumber hclosing
  | _, _, _, .declared h => .declared (h.renumber line)
  | _, _, _, .statement h => .statement h.renumber

theorem Declarations.renumber : ∀ {inside : Bool} {tokens : List Token} {body : List Stmt},
    Declarations reading inside tokens body →
      Declarations reading inside (tokens.map (Token.renumber line)) (Stmt.renumberEach line body)
  | _, _, _, .nil => .nil
  | _, _, _, .cons hfirst hothers => by
      rw [List.map_append]
      exact .cons hfirst.renumber hothers.renumber

end

/-! ## Programs -/

theorem Declarations.append {later : List Token} {body others : List Stmt}
    (h : Declarations reading inside tokens body)
    (hothers : Declarations reading inside later others) :
    Declarations reading inside (tokens ++ later) (body ++ others) := by
  induction body generalizing tokens with
  | nil =>
      cases h
      exact hothers
  | cons first body ih =>
      cases h with
      | cons hfirst hrest =>
          rw [List.append_assoc]
          exact .cons hfirst (ih hrest)

end Grammar

namespace Program

open Grammar

/-- Tokens that are read as a program, and after them others on other lines, are read as
both programs in one. -/
theorem ofTokens_join (line : Nat → Nat) {first second : List Token} {program other : Program}
    (hfirst : ofTokens first = .ok program) (hsecond : ofTokens second = .ok other) :
    ofTokens (first.takeWhile (·.kind != .eof) ++ second.map (Token.renumber line)) =
      .ok (program ++ Stmt.renumberEach line other) := by
  have hkinds : ∀ token ∈ first.takeWhile (·.kind != .eof), (token.kind != .eof) = true := by
    intro token htoken
    exact List.mem_takeWhile_imp (p := fun token : Token => token.kind != .eof) htoken
  apply ofTokens_of_derives
  rw [List.takeWhile_append_of_pos hkinds, List.takeWhile_map]
  exact (derives_of_ofTokens hfirst).append
    (Declarations.renumber line (derives_of_ofTokens hsecond))

end Program

end LoxLang
