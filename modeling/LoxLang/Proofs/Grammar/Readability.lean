/-
# Trees that are read are readable

Every token that a scan yields is as it is scanned, and a number is never negative, since a sign
is a token of its own. So the trees that are made of the tokens of a source are readable if it has
no strings in it and all its numbers are finite. Only the values of numbers are looked at for
that, and no production makes one up: the truth that a counting loop without a condition goes on
under is readable as well.

The outlines of what is read from such sources therefore tell all that was read but the lines.
-/

import LoxLang.Proofs.Grammar.Outcome
import LoxLang.Proofs.Tree.ReadBack

namespace LoxLang

open Spelling Grammar

/-! ## Tokens of a source -/

/-- The token is as it is scanned, and neither a string nor a number beyond all doubles. -/
structure Token.Fit (token : Token) : Prop where
  genuine : token.Genuine
  noString : token.kind ≠ .string
  finite : ∀ x, token.payload = some (.number x) → x.isFinite = true

/-- All of the tokens are fit. -/
def Fits (tokens : List Token) : Prop :=
  ∀ token ∈ tokens, token.Fit

@[simp]
theorem fits_cons {token : Token} {tokens : List Token} :
    Fits (token :: tokens) ↔ token.Fit ∧ Fits tokens :=
  List.forall_mem_cons

@[simp]
theorem fits_append {tokens later : List Token} :
    Fits (tokens ++ later) ↔ Fits tokens ∧ Fits later :=
  List.forall_mem_append

/-- What segments yield is as it is scanned, but for the end. -/
theorem Spelling.Yields.genuine {before : List Char} {segments : List Segment}
    {items : List ScanItem} (h : Yields before segments items)
    (hspelled : ∀ segment ∈ segments, Spelled segment.kind segment.text) :
    ∀ token ∈ Token.ofScan items, token.kind ≠ .eof → token.Genuine := by
  induction h with
  | done => simp [Token.ofScan, Token.eof]
  | blank _ ih | comment _ ih => exact ih (List.forall_mem_cons.mp hspelled).2
  | @lexeme before text segments items kind payload hcarries _ ih =>
      obtain ⟨hfirst, hothers⟩ := List.forall_mem_cons.mp hspelled
      refine List.forall_mem_cons.mpr ⟨fun _ => ?_, ih hothers⟩
      cases hfirst with
      | proper hproper =>
          cases hproper with
          | lexeme hlexeme =>
              have hword : text = (String.ofList text).toList := String.toList_ofList.symm
              exact ⟨hword ▸ hlexeme, hword ▸ hcarries, fun _ => String.ofList_toList.symm⟩
  | stray _ _ ih | openString _ _ ih => exact ih (List.forall_mem_cons.mp hspelled).2

/-- Every token of a source is as it is scanned, but for the end. -/
theorem Token.genuine_of_scan {source : String} {token : Token} (h : token ∈ ofScan (scan source))
    (hkind : token.kind ≠ .eof) : token.Genuine :=
  (scanSegments_yields [] (Segment.ofText_tokenises source.toList).spelled).genuine
    (Segment.ofText_tokenises source.toList).spelled token h hkind

/-! ## Expressions -/

namespace Grammar

variable {tokens : List Token} {value : Expr}

/-- The constant of a fit token can be told from its text. -/
theorem readable_constant {token : Token} {payload : Payload}
    (hkind : token.kind = .number ∨ token.kind = .string) (h : token.payload = some payload)
    (hfit : token.Fit) : payload.literal.Readable := by
  have hnumber := hkind.resolve_right hfit.noString
  have hpayload := hfit.genuine.carries.eq_payloadOf
  rw [hnumber, h, payloadOf, Option.some.injEq] at hpayload
  rw [hpayload] at h ⊢
  exact ⟨hfit.finite _ h, Number.isNegative_toFloat _⟩

theorem Level.readable_node {level : Level} {left right : Expr} {operator : Token}
    (hoperator : operator.kind ∈ level.operators) (hgenuine : operator.Genuine)
    (hleft : left.Readable) (hright : right.Readable) :
    (level.node left operator right).Readable := by
  rcases Level.node_cases hoperator with ⟨hkind, hnode⟩ | ⟨hkind, hnode⟩
  · rw [hnode]
    exact .binary hkind hgenuine hleft hright
  · rw [hnode]
    exact .logical hkind hgenuine hleft hright

mutual

theorem Phrase.readable : ∀ {rule : Rule} {tokens : List Token} {value : Expr},
    Phrase .strict rule tokens value → Fits tokens → value.Readable
  | _, _, _, .assign hname _ hvalue, hfits => by
      simp only [fits_cons] at hfits
      exact .assign hname hfits.1.genuine (hvalue.readable hfits.2.2)
  | _, _, _, .unassigned h, hfits => h.readable hfits
  | _, _, _, .join hleft hoperator hright, hfits => by
      simp only [fits_append, fits_cons] at hfits
      exact Level.readable_node hoperator hfits.2.1.genuine (hleft.readable hfits.1)
        (hright.readable hfits.2.2)
  | _, _, _, .single h, hfits => h.readable hfits
  | _, _, _, .signed hoperator h, hfits => by
      simp only [fits_cons] at hfits
      exact .unary hoperator hfits.1.genuine (h.readable hfits.2)
  | _, _, _, .unsigned h, hfits => h.readable hfits
  | _, _, _, .callBare hcallee _ hclosing, hfits => by
      simp only [fits_append, fits_cons] at hfits
      exact .call hclosing hfits.2.2.1.genuine (hcallee.readable hfits.1) nofun
  | _, _, _, .callWith hcallee _ harguments _ hclosing, hfits => by
      simp only [fits_append, fits_cons] at hfits
      exact .call hclosing hfits.2.2.2.1.genuine (hcallee.readable hfits.1)
        (harguments.readable hfits.2.2.1)
  | _, _, _, .uncalled h, hfits => h.readable hfits
  | _, _, _, .false _, _ => .literal trivial
  | _, _, _, .true _, _ => .literal trivial
  | _, _, _, .nil _, _ => .literal trivial
  | _, _, _, .constant hkind hpayload, hfits =>
      .literal (readable_constant hkind hpayload (fits_cons.mp hfits).1)
  | _, _, _, .name hkind, hfits => .variable hkind (fits_cons.mp hfits).1.genuine
  | _, _, _, .grouping _ hinner _, hfits => by
      simp only [fits_append, fits_cons] at hfits
      exact .grouping (hinner.readable hfits.2.1)

theorem Arguments.readable : ∀ {tokens : List Token} {values : List Expr},
    Arguments .strict tokens values → Fits tokens → ∀ value ∈ values, value.Readable
  | _, _, .last h, hfits => List.forall_mem_singleton.mpr (h.readable hfits)
  | _, _, .more h _ hothers, hfits => by
      simp only [fits_append, fits_cons] at hfits
      exact List.forall_mem_cons.mpr ⟨h.readable hfits.1, hothers.readable hfits.2.2⟩

end

theorem OptionalPhrase.readable {value : Option Expr} (h : OptionalPhrase .strict tokens value)
    (hfits : Fits tokens) : ∀ node ∈ value, node.Readable := by
  cases h with
  | absent => nofun
  | present h =>
      rintro _ ⟨⟩
      exact h.readable hfits

theorem Terminated.readable (h : Terminated .strict tokens value) (hfits : Fits tokens) :
    value.Readable := by
  cases h with
  | intro h _ => exact h.readable (fits_append.mp hfits).1

theorem Condition.readable (h : Condition .strict tokens value) (hfits : Fits tokens) :
    value.Readable := by
  cases h with
  | intro _ h _ =>
      simp only [fits_append, fits_cons] at hfits
      exact h.readable hfits.2.1

/-! ## Statements -/

variable {stmt : Stmt}

theorem Variable.readable (h : Variable .strict tokens stmt) (hfits : Fits tokens) :
    stmt.Readable := by
  cases h with
  | bare _ hname _ =>
      simp only [fits_cons] at hfits
      exact .var hname hfits.2.1.genuine nofun
  | initial _ hname _ h _ =>
      simp only [fits_append, fits_cons] at hfits
      refine .var hname hfits.2.1.genuine ?_
      rintro _ ⟨⟩
      exact h.readable hfits.2.2.2.1

theorem Parameters.readable {names : List Token} (h : Parameters tokens names)
    (hfits : Fits tokens) : ∀ name ∈ names, name.kind = .identifier ∧ name.Genuine := by
  induction h with
  | last hname => exact List.forall_mem_singleton.mpr ⟨hname, (fits_cons.mp hfits).1.genuine⟩
  | more hname _ _ ih =>
      simp only [fits_cons] at hfits
      exact List.forall_mem_cons.mpr ⟨⟨hname, hfits.1.genuine⟩, ih hfits.2.2⟩

theorem ParameterList.readable {names : List Token} (h : ParameterList .strict tokens names)
    (hfits : Fits tokens) : ∀ name ∈ names, name.kind = .identifier ∧ name.Genuine := by
  cases h with
  | none _ _ => nofun
  | some _ h _ _ =>
      simp only [fits_append, fits_cons] at hfits
      exact h.readable hfits.2.1

theorem Initial.readable {initial : Option Stmt} (h : Initial .strict tokens initial)
    (hfits : Fits tokens) : ∀ node ∈ initial, node.Readable := by
  cases h with
  | none _ => simp
  | declared h =>
      rintro _ ⟨⟩
      exact h.readable hfits
  | expression h =>
      rintro _ ⟨⟩
      exact .expression (h.readable hfits)

theorem Parts.readable_unrolled {initial : Option Stmt} {condition step : Option Expr}
    {body : Stmt} (h : Parts .strict tokens initial condition step) (hfits : Fits tokens)
    (hbody : body.Readable) : (unrolled initial condition step body).Readable := by
  cases h with
  | intro _ hinitial hcondition _ hstep _ =>
      simp only [fits_append, fits_cons] at hfits
      obtain ⟨-, hfirst, hsecond, -, hthird, -⟩ := hfits
      refine unrolled_induction ?_ (fun _ => .expression) (fun _ _ => .loop) (.literal trivial)
        (hinitial.readable hfirst) (hcondition.readable hsecond) (hstep.readable hthird) hbody
      exact fun first second hfirst hsecond => .block (by simp [hfirst, hsecond])

mutual

theorem Statement.readable : ∀ {inside ended : Bool} {tokens : List Token} {stmt : Stmt},
    Statement .strict inside ended tokens stmt → Fits tokens → stmt.Readable
  | _, _, _, _, .expression h, hfits => .expression (h.readable hfits)
  | _, _, _, _, .print _ h, hfits => .print (h.readable (fits_cons.mp hfits).2)
  | _, _, _, _, .ret hword _ hvalue _, hfits => by
      simp only [fits_append, fits_cons] at hfits
      exact .ret hword hfits.1.genuine (hvalue.readable hfits.2.1)
  | _, _, _, _, .loop _ htest hbody, hfits => by
      simp only [fits_append, fits_cons] at hfits
      exact .loop (htest.readable hfits.2.1) (hbody.readable hfits.2.2)
  | _, _, _, _, .counting _ hparts hbody, hfits => by
      simp only [fits_append, fits_cons] at hfits
      exact hparts.readable_unrolled hfits.2.1 (hbody.readable hfits.2.2)
  | _, _, _, _, .branch _ htest hconsequent, hfits => by
      simp only [fits_append, fits_cons] at hfits
      exact .branch (htest.readable hfits.2.1) (hconsequent.readable hfits.2.2) nofun
  | _, _, _, _, .branchElse _ htest hconsequent _ halternative, hfits => by
      simp only [fits_append, fits_cons] at hfits
      obtain ⟨-, ⟨hheader, hbefore⟩, -, hafter⟩ := hfits
      refine .branch (htest.readable hheader) (hconsequent.readable hbefore) ?_
      rintro _ ⟨⟩
      exact halternative.readable hafter
  | _, _, _, _, .block _ hbody _, hfits => by
      simp only [fits_append, fits_cons] at hfits
      exact .block (hbody.readable hfits.2.1)

theorem Declaration.readable : ∀ {inside : Bool} {tokens : List Token} {stmt : Stmt},
    Declaration .strict inside tokens stmt → Fits tokens → stmt.Readable
  | _, _, _, .function _ hname hnames _ hbody _, hfits => by
      simp only [fits_append, fits_cons] at hfits
      obtain ⟨-, hfirst, hheader, -, hinside, -⟩ := hfits
      exact .function hname hfirst.genuine (hnames.readable hheader) (hbody.readable hinside)
  | _, _, _, .declared h, hfits => h.readable hfits
  | _, _, _, .statement h, hfits => h.readable hfits

theorem Declarations.readable : ∀ {inside : Bool} {tokens : List Token} {body : List Stmt},
    Declarations .strict inside tokens body → Fits tokens → ∀ node ∈ body, node.Readable
  | _, _, _, .nil, _ => nofun
  | _, _, _, .cons h hothers, hfits =>
      List.forall_mem_cons.mpr
        ⟨h.readable (fits_append.mp hfits).1, hothers.readable (fits_append.mp hfits).2⟩

end

end Grammar

/-! ## What is read from a source -/

/-- No token of the source is a string, and all its numbers are finite. -/
def Outlined (source : String) : Prop :=
  ∀ token ∈ Token.ofScan (Token.scan source),
    token.kind ≠ .string ∧ ∀ x, token.payload = some (.number x) → x.isFinite = true

/-- All tokens before the end of such a source are fit. -/
theorem Outlined.fits {source : String} (h : Outlined source) :
    Fits ((Token.ofScan (Token.scan source)).takeWhile (·.kind != .eof)) := by
  intro token htoken
  have hscanned := List.takeWhile_subset _ htoken
  have hgenuine := Token.genuine_of_scan hscanned (kind_of_mem_untilEof htoken)
  exact ⟨hgenuine, (h token hscanned).1, (h token hscanned).2⟩

theorem Outlined.readable_program {source : String} {program : Program} (h : Outlined source)
    (hread : Program.ofTokens (Token.ofScan (Token.scan source)) = .ok program) :
    ∀ node ∈ program, node.Readable :=
  Declarations.readable (Program.derives_of_ofTokens hread) h.fits

theorem Outlined.readable_expression {source : String} {node : Expr} (h : Outlined source)
    (hread : Expr.ofTokens (Token.ofScan (Token.scan source)) = .ok node) : node.Readable :=
  (Expr.phrase_of_ofTokens hread).readable h.fits

/-! ## One program in two layouts -/

/-- The tokens of `print -a - x;`, where the number and what is next to it are on the line. -/
def differenceTokens (line : Nat) (text : String) (x : Float) : List Token :=
  [⟨.keyword .print, "print", none, 1⟩, ⟨.minus, "-", none, 1⟩, ⟨.identifier, "a", none, 1⟩,
    ⟨.minus, "-", none, line⟩, ⟨.number, text, some (.number x), line⟩,
    ⟨.semicolon, ";", none, line⟩, .eof line]

/-- The program that they are read as. -/
def difference (line : Nat) (x : Float) : Program :=
  [.print (.binary (.unary ⟨.minus, "-", none, 1⟩ (.variable ⟨.identifier, "a", none, 1⟩))
    ⟨.minus, "-", none, line⟩ (.literal (.number x)))]

theorem ofTokens_difference (line : Nat) (text : String) (x : Float) :
    Program.ofTokens (differenceTokens line text x) = .ok (difference line x) := by
  cbv

theorem scan_difference : Token.ofScan (Token.scan "print -a - 1;") =
    differenceTokens 1 "1" (Decimal.ofDigits ['1']).toFloat := by
  -- the segments are cut by evaluation, the number stays as it is
  have hsegments : Segment.ofText "print -a - 1;".toList =
      [⟨.lexeme (.keyword .print), ['p', 'r', 'i', 'n', 't']⟩, ⟨.blank, [' ']⟩,
        ⟨.lexeme .minus, ['-']⟩, ⟨.lexeme .identifier, ['a']⟩, ⟨.blank, [' ']⟩,
        ⟨.lexeme .minus, ['-']⟩, ⟨.blank, [' ']⟩, ⟨.lexeme .number, ['1']⟩,
        ⟨.lexeme .semicolon, [';']⟩] := by cbv
  rw [Token.scan, hsegments]
  rfl

theorem scan_difference_lines : Token.ofScan (Token.scan "print -a\n- 1.0;") =
    differenceTokens 2 "1.0" (Decimal.ofDigits ['1', '.', '0']).toFloat := by
  have hsegments : Segment.ofText "print -a\n- 1.0;".toList =
      [⟨.lexeme (.keyword .print), ['p', 'r', 'i', 'n', 't']⟩, ⟨.blank, [' ']⟩,
        ⟨.lexeme .minus, ['-']⟩, ⟨.lexeme .identifier, ['a']⟩, ⟨.blank, ['\n']⟩,
        ⟨.lexeme .minus, ['-']⟩, ⟨.blank, [' ']⟩, ⟨.lexeme .number, ['1', '.', '0']⟩,
        ⟨.lexeme .semicolon, [';']⟩] := by cbv
  rw [Token.scan, hsegments]
  rfl

theorem outlined_of_difference {source text : String} {line : Nat} {x : Float}
    (h : Token.ofScan (Token.scan source) = differenceTokens line text x)
    (hx : x.isFinite = true) : Outlined source := by
  rw [Outlined, h]
  simp [differenceTokens, Token.eof, hx]

/-! ## Outlines and what is read -/

/-- Outlines lose nothing but lines. If two sources have no strings and only finite numbers in
them and are read as programs, their statements have the same outlines one by one exactly if the
programs are the same but for the lines of their tokens. If they are read as expressions, so it
is with these. -/
theorem outlines_eq_iff {source other : String} (h : Outlined source) (hother : Outlined other) :
    (∀ program second : Program,
      Program.ofTokens (Token.ofScan (Token.scan source)) = .ok program →
      Program.ofTokens (Token.ofScan (Token.scan other)) = .ok second →
        (program.map Stmt.outline = second.map Stmt.outline ↔
          Stmt.renumberEach (fun _ => 0) program = Stmt.renumberEach (fun _ => 0) second)) ∧
      ∀ node second : Expr,
        Expr.ofTokens (Token.ofScan (Token.scan source)) = .ok node →
        Expr.ofTokens (Token.ofScan (Token.scan other)) = .ok second →
          (node.outline = second.outline ↔
            (node.renumber fun _ => 0) = second.renumber fun _ => 0) := by
  constructor
  · intro program second hprogram hsecond
    exact Stmt.map_outline_eq_iff (h.readable_program hprogram) (hother.readable_program hsecond)
  · intro node second hnode hsecond
    exact (h.readable_expression hnode).outline_eq_iff (hother.readable_expression hsecond)

/-- A difference on one line and on two, where the number is written in two ways, has one
outline, and so it is one program but for the lines. -/
theorem difference_outlines_eq_iff :
    Outlined "print -a - 1;" ∧ Outlined "print -a\n- 1.0;" ∧
      ∃ program second : Program,
        Program.ofTokens (Token.ofScan (Token.scan "print -a - 1;")) = .ok program ∧
        Program.ofTokens (Token.ofScan (Token.scan "print -a\n- 1.0;")) = .ok second ∧
        program.map Stmt.outline = second.map Stmt.outline ∧
        Stmt.renumberEach (fun _ => 0) program = Stmt.renumberEach (fun _ => 0) second := by
  have hone := outlined_of_difference scan_difference (by decide +kernel)
  have htwo := outlined_of_difference scan_difference_lines (by decide +kernel)
  have hvalue : (Decimal.ofDigits ['1', '.', '0']).toFloat = (Decimal.ofDigits ['1']).toFloat := by
    decide +kernel
  have hprogram := ofTokens_difference 1 "1" (Decimal.ofDigits ['1']).toFloat
  have hsecond := ofTokens_difference 2 "1.0" (Decimal.ofDigits ['1', '.', '0']).toFloat
  rw [← scan_difference] at hprogram
  rw [← scan_difference_lines, hvalue] at hsecond
  have houtlines (x : Float) :
      (difference 1 x).map Stmt.outline = (difference 2 x).map Stmt.outline := rfl
  exact ⟨hone, htwo, _, _, hprogram, hsecond, houtlines _,
    ((outlines_eq_iff hone htwo).1 _ _ hprogram hsecond).mp (houtlines _)⟩

end LoxLang
