/-
# Programs that derive are read

The rules for statements read back whatever the grammar derives. Only an open
statement minds what follows it: an `else` there would be taken for its own.
-/

import LoxLang.Proofs.Grammar.ExpressionComplete
import LoxLang.Proofs.Grammar.StatementSound

namespace LoxLang

open Attempt

namespace Grammar

variable (eof : Token) {reading : Reading} {tokens rest : List Token} {value : Expr}

/-! ## Parts of statements -/

/-- An expression is read before a token that cannot go on with it. -/
theorem Phrase.yields_before (h : Phrase reading .assignment tokens value) {closing : Token}
    {kind : TokenKind} (hclosing : closing.kind = kind)
    (hkind : kind ∉ .equal :: continuations tiers) :
    (expression eof (tokens ++ closing :: rest)).Yields reading value (closing :: rest) := by
  apply h.readsBack
  exact noneAhead_of_kind hclosing hkind

theorem OptionalPhrase.yields {value : Option Expr} (h : OptionalPhrase reading tokens value)
    {closing : Token} {stop : TokenKind} (hclosing : closing.kind = stop)
    (hstart : stop ∉ Rule.assignment.starters) (hstop : stop ∉ .equal :: continuations tiers) :
    (optional eof stop (tokens ++ closing :: rest)).Yields reading value (closing :: rest) := by
  rw [optional]
  cases h with
  | absent =>
      rw [if_pos (by simp [startsWith, hclosing])]
      exact yields_done
  | present h =>
      obtain ⟨first, others, rfl, hfirst⟩ := h.exists_start
      have hne : first.kind ≠ stop := fun heq => hstart (heq ▸ hfirst)
      rw [if_neg (by simp [startsWith, hne])]
      exact ((h.yields_before eof hclosing hstop).map _).weaken

theorem Terminated.yields (h : Terminated reading tokens value) (make : Expr → Stmt)
    {fault : SyntaxFault} :
    (terminated eof make fault (tokens ++ rest)).Yields reading (make value) rest := by
  cases h with
  | intro hvalue hsemicolon =>
      rw [terminated, List.append_assoc, List.singleton_append]
      apply (hvalue.yields_before eof hsemicolon (by decide)).andThen
      intro left
      exact (yields_expect eof hsemicolon).map _

/-- After its first word a variable declaration is read. -/
theorem Variable.yields {declared : Stmt} (h : Variable reading tokens declared) :
    ∃ word after, tokens = word :: after ∧ word.kind = .keyword .var ∧
      ∀ rest, (variableDeclaration eof (after ++ rest)).Yields reading declared rest := by
  cases h with
  | @bare word name semicolon hword hname hsemicolon =>
      refine ⟨word, [name, semicolon], rfl, hword, fun rest => ?_⟩
      rw [variableDeclaration]
      apply (yields_expect eof hname).andThen
      intro left
      apply yields_accept_of_noneAhead
      · exact noneAhead_of_kind hsemicolon (by decide)
      · exact (yields_expect eof hsemicolon).map _
  | @initial word name equals semicolon tokens value hword hname hequals hvalue hsemicolon =>
      refine ⟨word, name :: equals :: (tokens ++ [semicolon]), rfl, hword, fun rest => ?_⟩
      rw [variableDeclaration]
      apply (yields_expect eof hname).andThen
      intro left
      apply yields_accept (List.mem_singleton.mpr hequals)
      intro _
      exact (Terminated.intro hvalue hsemicolon).yields eof _

theorem Condition.yields (h : Condition reading tokens value) {noOpening noClosing : SyntaxFault} :
    (condition eof noOpening noClosing (tokens ++ rest)).Yields reading value rest := by
  cases h with
  | intro hopening htest hclosing =>
      rw [condition, List.cons_append, List.append_assoc, List.singleton_append]
      apply (yields_expect eof hopening).andThen
      intro left
      apply (htest.yields_before eof hclosing (by decide)).andThen
      intro left
      exact (yields_expect eof hclosing).map _

theorem Parameters.yields {names : List Token} (h : Parameters tokens names) {count : Nat}
    (hbound : reading = .strict → count + names.length ≤ 255) {closing : Token}
    (hclosing : closing.kind = .rightParen) :
    (parameters eof count (tokens ++ closing :: rest)).Yields reading names (closing :: rest) := by
  induction h generalizing count with
  | @last name hname =>
      rw [parameters]
      refine Yields.noting ?_ (admits_excess eof rfl hbound)
      apply (yields_expect eof hname).andThen
      intro left
      apply yields_accept_of_noneAhead _ yields_done
      exact noneAhead_of_kind hclosing (by decide)
  | @more name comma tokens names hname hcomma _ ih =>
      have hlater (hstrict : reading = .strict) : count + 1 + names.length ≤ 255 := by
        have := hbound hstrict
        simp only [List.length_cons] at this
        omega
      rw [parameters]
      refine Yields.noting ?_ (admits_excess eof rfl fun hstrict => ?_)
      · apply (yields_expect eof hname).andThen
        intro left
        apply yields_accept (List.mem_singleton.mpr hcomma)
        intro _
        exact (ih hlater).map _
      · have := hlater hstrict
        omega

/-- After its opening parenthesis a list of parameters is read. -/
theorem ParameterList.yields {names : List Token} (h : ParameterList reading tokens names) :
    ∃ opening after, tokens = opening :: after ∧ opening.kind = .leftParen ∧
      ∀ rest, (parameterList eof (after ++ rest)).Yields reading names rest := by
  cases h with
  | @none opening closing hopening hclosing =>
      refine ⟨opening, [closing], rfl, hopening, fun rest => ?_⟩
      exact yields_accept (List.mem_singleton.mpr hclosing) fun _ => yields_done
  | @some opening closing tokens names hopening hnames hbound hclosing =>
      refine ⟨opening, tokens ++ [closing], rfl, hopening, fun rest => ?_⟩
      rw [parameterList, List.append_assoc, List.singleton_append]
      apply yields_accept_of_noneAhead
      · cases hnames with
        | last hname =>
            rw [List.singleton_append]
            exact noneAhead_of_kind hname (by decide)
        | more hname _ _ =>
            rw [List.cons_append]
            exact noneAhead_of_kind hname (by decide)
      · apply (hnames.yields eof (by simpa using hbound) hclosing).andThen
        intro left
        exact (yields_expect eof hclosing).map _

/-- A function is read up to the brace that opens its body. -/
theorem yields_signature {name opening : Token} {header names : List Token}
    (hname : name.kind = .identifier) (hnames : ParameterList reading header names)
    (hopening : opening.kind = .leftBrace) :
    (signature eof (name :: (header ++ opening :: rest))).Yields reading (name, names) rest := by
  obtain ⟨paren, after, rfl, hparen, hread⟩ := hnames.yields eof
  rw [signature]
  apply (yields_expect eof hname).andThen
  intro left
  apply (yields_expect eof hparen).andThen
  intro left
  apply (hread (opening :: rest)).andThen
  intro left
  exact (yields_expect eof hopening).map _

theorem Initial.yields {initial : Option Stmt} (h : Initial reading tokens initial) :
    (initialClause eof (tokens ++ rest)).Yields reading initial rest := by
  rw [initialClause]
  cases h with
  | none hsemicolon =>
      exact yields_accept (List.mem_singleton.mpr hsemicolon) fun _ => yields_done
  | declared h =>
      obtain ⟨word, after, rfl, hword, hyields⟩ := h.yields eof
      rw [List.cons_append]
      apply yields_accept_of_noneAhead
      · exact noneAhead_of_kind hword (by decide)
      · apply yields_accept (List.mem_singleton.mpr hword)
        intro _
        exact (hyields rest).map _
  | expression h =>
      have hahead {kinds : List TokenKind} (hkinds : ∀ kind ∈ Rule.assignment.starters, kind ∉ kinds) :
          NoneAhead kinds (tokens ++ rest) := by
        cases h with
        | intro hvalue _ =>
            rw [List.append_assoc]
            exact hvalue.noneAhead hkinds
      apply yields_accept_of_noneAhead (hahead (by decide))
      apply yields_accept_of_noneAhead (hahead (by decide))
      exact (h.yields eof .expression).map _

theorem Parts.yields {initial : Option Stmt} {condition step : Option Expr}
    (h : Parts reading tokens initial condition step) :
    (clauses eof (tokens ++ rest)).Yields reading ⟨initial, condition, step⟩ rest := by
  cases h with
  | @intro opening semicolon closing first second third _ _ _ hopening hinitial hcondition hsemicolon
      hstep hclosing =>
      have hassoc : opening :: (first ++ (second ++ semicolon :: (third ++ [closing]))) ++ rest =
          opening :: (first ++ (second ++ semicolon :: (third ++ closing :: rest))) := by simp
      rw [hassoc, clauses]
      apply (yields_expect eof hopening).andThen
      intro left
      apply (hinitial.yields eof).andThen
      intro left
      apply (hcondition.yields eof hsemicolon (by decide) (by decide)).andThen
      intro left
      apply (yields_expect eof hsemicolon).andThen
      intro left
      apply (hstep.yields eof hclosing (by decide) (by decide)).andThen
      intro left
      exact (yields_expect eof hclosing).map _

/-! ## How statements start -/

theorem Terminated.exists_start (h : Terminated reading tokens value) :
    ∃ first others, tokens = first :: others ∧ first.kind ∈ Rule.assignment.starters := by
  cases h with
  | intro hvalue _ =>
      obtain ⟨first, others, rfl, hfirst⟩ := hvalue.exists_start
      exact ⟨first, _, rfl, hfirst⟩

variable {inside ended : Bool} {stmt : Stmt}

/-- No statement starts like another declaration, an alternative or the end of a block, or
with a semicolon. -/
theorem Statement.exists_start (h : Statement reading inside ended tokens stmt) :
    ∃ first others, tokens = first :: others ∧
      first.kind ∉ [.keyword .fun, .keyword .var, .keyword .else, .rightBrace, .semicolon] := by
  cases h with
  | expression h =>
      obtain ⟨first, others, rfl, hfirst⟩ := h.exists_start
      refine ⟨first, others, rfl, ?_⟩
      revert hfirst
      generalize first.kind = kind
      revert kind
      decide
  | print hword _ => exact ⟨_, _, rfl, by rw [hword]; decide⟩
  | ret hword _ _ _ => exact ⟨_, _, rfl, by rw [hword]; decide⟩
  | loop hword _ _ => exact ⟨_, _, rfl, by rw [hword]; decide⟩
  | counting hword _ _ => exact ⟨_, _, rfl, by rw [hword]; decide⟩
  | branch hword _ _ => exact ⟨_, _, rfl, by rw [hword]; decide⟩
  | branchElse hword _ _ _ _ => exact ⟨_, _, rfl, by rw [hword]; decide⟩
  | block hopening _ _ => exact ⟨_, _, rfl, by rw [hopening]; decide⟩

theorem Declaration.exists_start (h : Declaration reading inside tokens stmt) :
    ∃ first others, tokens = first :: others ∧
      first.kind ∉ [.keyword .else, .rightBrace, .semicolon] := by
  cases h with
  | function hword _ _ _ _ _ => exact ⟨_, _, rfl, by rw [hword]; decide⟩
  | declared h =>
      cases h with
      | bare hword _ _ => exact ⟨_, _, rfl, by rw [hword]; decide⟩
      | initial hword _ _ _ _ => exact ⟨_, _, rfl, by rw [hword]; decide⟩
  | statement h =>
      obtain ⟨first, others, rfl, hfirst⟩ := h.exists_start
      refine ⟨first, others, rfl, fun hmem => hfirst ?_⟩
      exact List.mem_cons_of_mem _ (List.mem_cons_of_mem _ hmem)

/-- What no declaration starts with is ahead of declarations only if it is behind them. -/
theorem Declarations.noneAhead {body : List Stmt} (h : Declarations reading inside tokens body)
    {kinds : List TokenKind} (hkinds : ∀ kind ∈ kinds, kind ∈ [.keyword .else, .rightBrace, .semicolon])
    (hrest : NoneAhead kinds rest) : NoneAhead kinds (tokens ++ rest) := by
  cases h with
  | nil => exact hrest
  | cons hfirst _ =>
      obtain ⟨first, others, rfl, hkind⟩ := hfirst.exists_start
      exact noneAhead_cons.mpr fun hmem => hkind (hkinds first.kind hmem)

/-! ## Statements and declarations -/

/-- The declaration is read, and there was nothing to recover from that is not admitted. -/
def YieldsRecovery (reading : Reading) (stmt : Stmt) (rest : List Token)
    (recovered : Recovered tokens) : Prop :=
  recovered.statement = some stmt ∧ recovered.rest = rest ∧ reading.Admits recovered.errors

theorem Yields.recovered {first : Token} {after : List Token}
    {attempt : Attempt true Stmt (first :: after)} (h : attempt.Yields reading stmt rest) :
    YieldsRecovery reading stmt rest attempt.recovered := by
  obtain ⟨errors, left, rfl, hadmits⟩ := h
  exact ⟨rfl, rfl, hadmits⟩

/-- An expression with its semicolon is read as a statement. -/
theorem Terminated.yields_statement (h : Terminated reading tokens value) :
    (statement eof inside (tokens ++ rest)).Yields reading (.expression value) rest := by
  obtain ⟨first, others, rfl, hfirst⟩ := h.exists_start
  have hother {kind : TokenKind} (hkind : kind ∉ Rule.assignment.starters) : first.kind ≠ kind :=
    fun heq => hkind (heq ▸ hfirst)
  rw [List.cons_append, statement]
  split
  next heq => exact absurd heq (hother (by decide))
  next heq => exact absurd heq (hother (by decide))
  next heq => exact absurd heq (hother (by decide))
  next heq => exact absurd heq (hother (by decide))
  next heq => exact absurd heq (hother (by decide))
  next heq => exact absurd heq (hother (by decide))
  next => exact h.yields eof .expression

/-- A declaration that is a statement is left to the rule for statements. -/
theorem Statement.yields_declaration (h : Statement reading inside ended tokens stmt)
    (hread : (statement eof inside (tokens ++ rest)).Yields reading stmt rest) :
    ∃ first after, tokens = first :: after ∧
      YieldsRecovery reading stmt rest (declaration eof inside first (after ++ rest)) := by
  obtain ⟨first, after, rfl, hfirst⟩ := h.exists_start
  refine ⟨first, after, rfl, ?_⟩
  rw [declaration]
  apply Yields.recovered
  split
  next heq => exact absurd (by rw [heq]; decide) hfirst
  next heq => exact absurd (by rw [heq]; decide) hfirst
  next => exact hread

/-- A block is read one declaration at a time. -/
theorem yields_block_cons {first : Token} {after unread : List Token} {body : List Stmt}
    (hkind : first.kind ≠ .rightBrace)
    (hfirst : YieldsRecovery reading stmt rest (declaration eof inside first after))
    (hothers : (block eof inside rest).Yields reading body unread) :
    (block eof inside (first :: after)).Yields reading (stmt :: body) unread := by
  rw [block, if_neg hkind]
  revert hfirst
  rcases declaration eof inside first after with ⟨statement, left, errors, shorter⟩
  rintro ⟨rfl, rfl, hadmits⟩
  exact ((hothers.map _).noting hadmits).widen

mutual

/-- Every statement that is derived is read back. -/
theorem Statement.yields : ∀ {inside ended : Bool} {tokens : List Token} {stmt : Stmt},
    Statement reading inside ended tokens stmt → ∀ rest,
      (ended = true → NoneAhead [.keyword .else] rest) →
      (statement eof inside (tokens ++ rest)).Yields reading stmt rest
  | _, _, _, _, .expression h, rest, _ => h.yields_statement eof
  | _, _, _, _, .print hword h, rest, _ => by
      rw [List.cons_append, statement]
      simp only [hword]
      exact (h.yields eof .print).afterToken
  | _, _, _, _, .ret hword hinside hvalue hsemicolon, rest, _ => by
      rw [List.cons_append, statement]
      simp only [hword]
      apply Yields.afterToken
      rw [returned, List.append_assoc, List.singleton_append]
      refine Yields.noting ?_ ?_
      · apply (hvalue.yields eof hsemicolon (by decide) (by decide)).andThen
        intro left
        exact (yields_expect eof hsemicolon).map _
      · split
        next => exact Reading.admits_nil
        next houtside => exact Reading.admits_singleton rfl fun hstrict => houtside (hinside hstrict)
  | _, _, _, _, .loop hword htest hbody, rest, hahead => by
      rw [List.cons_append, List.append_assoc, statement]
      simp only [hword]
      apply Yields.afterToken
      rw [loop]
      apply (htest.yields eof).andThen
      intro left
      exact (hbody.yields rest hahead).map _
  | _, _, _, _, .counting hword hparts hbody, rest, hahead => by
      rw [List.cons_append, List.append_assoc, statement]
      simp only [hword]
      apply Yields.afterToken
      rw [countingLoop, ← counting_eq_unrolled]
      apply (hparts.yields eof).andThen
      intro left
      exact (hbody.yields rest hahead).map _
  | _, _, _, _, .branch hword htest hconsequent, rest, hahead => by
      rw [List.cons_append, List.append_assoc, statement]
      simp only [hword]
      apply Yields.afterToken
      rw [branch]
      apply (htest.yields eof).andThen
      intro left
      apply (hconsequent.yields rest fun _ => hahead rfl).andThen
      intro left
      exact yields_accept_of_noneAhead (hahead rfl) yields_done
  | _, _, _, _, @Statement.branchElse _ _ _ word other header before after _ _ _ hword htest
      hconsequent hother halternative, rest, hahead => by
      have hassoc : word :: (header ++ before ++ other :: after) ++ rest =
          word :: (header ++ (before ++ other :: (after ++ rest))) := by simp
      rw [hassoc, statement]
      simp only [hword]
      apply Yields.afterToken
      rw [branch]
      apply (htest.yields eof).andThen
      intro left
      apply (hconsequent.yields (other :: (after ++ rest)) (by simp)).andThen
      intro left
      apply yields_accept (List.mem_singleton.mpr hother)
      intro _
      exact (halternative.yields rest hahead).map _
  | _, _, _, _, .block hopening hbody hclosing, rest, _ => by
      rw [List.cons_append, List.append_assoc, List.singleton_append, statement]
      simp only [hopening]
      exact ((hbody.yields hclosing rest).map _).afterToken

/-- Every declaration that is derived is read back before what is not an `else`. -/
theorem Declaration.yields : ∀ {inside : Bool} {tokens : List Token} {stmt : Stmt},
    Declaration reading inside tokens stmt → ∀ rest, NoneAhead [.keyword .else] rest →
      ∃ first after, tokens = first :: after ∧
        YieldsRecovery reading stmt rest (declaration eof inside first (after ++ rest))
  | _, _, _, @Declaration.function _ _ word name opening closing header body names _ hword hname
      hnames hopening hbody hclosing, rest, _ => by
      refine ⟨_, _, rfl, ?_⟩
      have hassoc : name :: (header ++ opening :: (body ++ [closing])) ++ rest =
          name :: (header ++ opening :: (body ++ closing :: rest)) := by simp
      rw [hassoc, declaration]
      simp only [hword]
      apply Yields.recovered
      apply Yields.afterToken
      rw [function]
      apply (yields_signature eof hname hnames hopening).andThen
      intro left
      exact (hbody.yields hclosing rest).map _
  | _, _, _, .declared h, rest, _ => by
      obtain ⟨word, after, rfl, hword, hread⟩ := h.yields eof
      refine ⟨word, after, rfl, ?_⟩
      rw [declaration]
      simp only [hword]
      exact Yields.recovered (hread rest).afterToken
  | _, _, _, .statement h, rest, hahead =>
      h.yields_declaration eof (h.yields rest fun _ => hahead)

/-- Declarations that are derived are read back before the brace that closes a block. -/
theorem Declarations.yields : ∀ {inside : Bool} {tokens : List Token} {body : List Stmt},
    Declarations reading inside tokens body → ∀ {closing : Token}, closing.kind = .rightBrace →
      ∀ rest, (block eof inside (tokens ++ closing :: rest)).Yields reading body rest
  | _, _, _, .nil, closing, hclosing, rest => by
      rw [List.nil_append, block, if_pos hclosing]
      exact yields_done.afterToken
  | _, _, _, @Declarations.cons _ _ before after _ _ hfirst hothers, closing, hclosing, rest => by
      have hahead : NoneAhead [.keyword .else] (after ++ closing :: rest) :=
        hothers.noneAhead (by decide) (noneAhead_of_kind hclosing (by decide))
      obtain ⟨_, _, hstart, hkind⟩ := hfirst.exists_start
      obtain ⟨first, others, rfl, hread⟩ := hfirst.yields _ hahead
      cases hstart
      rw [List.append_assoc]
      apply yields_block_cons eof _ hread (hothers.yields hclosing rest)
      exact fun hbrace => hkind (by rw [hbrace]; decide)

end

/-- So is a program. -/
theorem declarations_cons {first : Token} {after : List Token}
    (hfirst : YieldsRecovery reading stmt rest (declaration eof false first after))
    (hothers : reading.Admits (declarations eof rest).2) :
    (declarations eof (first :: after)).1 = stmt :: (declarations eof rest).1 ∧
      reading.Admits (declarations eof (first :: after)).2 := by
  rw [declarations]
  revert hfirst
  rcases declaration eof false first after with ⟨statement, left, errors, shorter⟩
  rintro ⟨rfl, rfl, hadmits⟩
  exact ⟨rfl, Reading.admits_append.mpr ⟨hadmits, hothers⟩⟩

/-- A program that is derived is what its declarations are read as, with no error that
is not admitted. -/
theorem Declarations.reads : ∀ {tokens : List Token} {program : Program},
    Declarations reading false tokens program →
      (declarations eof tokens).1 = program ∧ reading.Admits (declarations eof tokens).2
  | _, _, .nil => by
      rw [declarations]
      exact ⟨rfl, Reading.admits_nil⟩
  | _, _, @Declarations.cons _ _ before after _ _ hfirst hothers => by
      have hahead : NoneAhead [.keyword .else] after := by
        simpa using hothers.noneAhead (by decide) (noneAhead_nil _)
      obtain ⟨hprogram, hlater⟩ := hothers.reads
      obtain ⟨first, others, rfl, hread⟩ := hfirst.yields eof after hahead
      obtain ⟨hcons, hadmits⟩ := declarations_cons eof hread hlater
      rw [hprogram] at hcons
      exact ⟨hcons, hadmits⟩

end Grammar

end LoxLang
