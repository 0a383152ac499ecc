/-
# What stands within a line

An expression has no brace in it and no token for the end, and neither have the parts of
statements that are not statements themselves: a condition, the clauses of a counting loop,
the parameters of a function, a variable declaration. So a brace in a program always
belongs to a block or to the body of a function.
-/

import LoxLang.Proofs.Grammar.Derivation

namespace LoxLang

namespace Grammar

variable {reading : Reading} {tokens : List Token} {kind : TokenKind}

/-- None of the tokens is a brace or for the end. -/
def Inline (tokens : List Token) : Prop :=
  ∀ token ∈ tokens, token.kind ∉ [.leftBrace, .rightBrace, .eof]

@[simp]
theorem inline_nil : Inline [] := nofun

@[simp]
theorem inline_cons {token : Token} :
    Inline (token :: tokens) ↔ token.kind ∉ [.leftBrace, .rightBrace, .eof] ∧ Inline tokens :=
  List.forall_mem_cons

@[simp]
theorem inline_append {later : List Token} :
    Inline (tokens ++ later) ↔ Inline tokens ∧ Inline later :=
  List.forall_mem_append

theorem Level.operator_not_mem {level : Level} (h : kind ∈ level.operators) :
    kind ∉ [.leftBrace, .rightBrace, .eof] := by
  revert h
  revert kind
  cases level <;> decide

mutual

theorem Phrase.inline : ∀ {rule : Rule} {tokens : List Token} {value : Expr},
    Phrase reading rule tokens value → Inline tokens
  | _, _, _, .assign hname hequals hvalue => by simp [hname, hequals, hvalue.inline]
  | _, _, _, .misassign _ htarget _ hequals hvalue => by
      simp [htarget.inline, hequals, hvalue.inline]
  | _, _, _, .unassigned h => h.inline
  | _, _, _, .join hleft hoperator hright =>
      inline_append.mpr ⟨hleft.inline,
        inline_cons.mpr ⟨Level.operator_not_mem hoperator, hright.inline⟩⟩
  | _, _, _, .single h => h.inline
  | _, _, _, .signed hoperator h => by
      rcases hoperator with hkind | hkind <;> simp [hkind, h.inline]
  | _, _, _, .unsigned h => h.inline
  | _, _, _, .callBare hcallee hopening hclosing => by simp [hcallee.inline, hopening, hclosing]
  | _, _, _, .callWith hcallee hopening harguments _ hclosing => by
      simp [hcallee.inline, hopening, harguments.inline, hclosing]
  | _, _, _, .uncalled h => h.inline
  | _, _, _, .false hkind => by simp [hkind]
  | _, _, _, .true hkind => by simp [hkind]
  | _, _, _, .nil hkind => by simp [hkind]
  | _, _, _, .constant hkind _ => by rcases hkind with hkind | hkind <;> simp [hkind]
  | _, _, _, .name hkind => by simp [hkind]
  | _, _, _, .grouping hopening hinner hclosing => by simp [hopening, hinner.inline, hclosing]

theorem Arguments.inline : ∀ {tokens : List Token} {values : List Expr},
    Arguments reading tokens values → Inline tokens
  | _, _, .last h => h.inline
  | _, _, .more h hcomma hothers => by simp [h.inline, hcomma, hothers.inline]

end

theorem OptionalPhrase.inline {value : Option Expr} (h : OptionalPhrase reading tokens value) :
    Inline tokens := by
  cases h with
  | absent => exact inline_nil
  | present h => exact h.inline

theorem Terminated.inline {value : Expr} (h : Terminated reading tokens value) :
    Inline tokens := by
  cases h with
  | intro h hsemicolon => simp [h.inline, hsemicolon]

theorem Condition.inline {test : Expr} (h : Condition reading tokens test) : Inline tokens := by
  cases h with
  | intro hopening h hclosing => simp [hopening, h.inline, hclosing]

theorem Parameters.inline {names : List Token} (h : Parameters tokens names) : Inline tokens := by
  induction h with
  | last hname => simp [hname]
  | more hname hcomma _ ih => simp [hname, hcomma, ih]

theorem ParameterList.inline {names : List Token} (h : ParameterList reading tokens names) :
    Inline tokens := by
  cases h with
  | none hopening hclosing => simp [hopening, hclosing]
  | some hopening hnames _ hclosing => simp [hopening, hnames.inline, hclosing]

theorem Variable.inline {declared : Stmt} (h : Variable reading tokens declared) :
    Inline tokens := by
  cases h with
  | bare hword hname hsemicolon => simp [hword, hname, hsemicolon]
  | initial hword hname hequals h hsemicolon =>
      simp [hword, hname, hequals, h.inline, hsemicolon]

theorem Initial.inline {initial : Option Stmt} (h : Initial reading tokens initial) :
    Inline tokens := by
  cases h with
  | none hsemicolon => simp [hsemicolon]
  | declared h => exact h.inline
  | expression h => exact h.inline

theorem Parts.inline {initial : Option Stmt} {condition step : Option Expr}
    (h : Parts reading tokens initial condition step) : Inline tokens := by
  cases h with
  | intro hopening hinitial hcondition hsemicolon hstep hclosing =>
      simp [hopening, hinitial.inline, hcondition.inline, hsemicolon, hstep.inline, hclosing]

end Grammar

end LoxLang
