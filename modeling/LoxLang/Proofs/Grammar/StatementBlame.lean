/-
# What is blamed in statements

What a rule for statements has read before the token to blame begins a statement. What is
missing can be the shortest of its kind: a constant for an expression, an empty block for
a statement, nothing where nothing has to be.

Errors in a block do not end it. But the first that is fatal comes after declarations
that were read without one, and these stand in the block before the one at fault.
-/

import LoxLang.Proofs.Grammar.ExpressionBlame
import LoxLang.Proofs.Grammar.StatementLocality
import LoxLang.Proofs.Grammar.StatementSound

namespace LoxLang

open Attempt

namespace Grammar

variable {eof : Token} {tokens : List Token}

/-! ## Parts of statements -/

theorem blames_optional (stop : TokenKind) :
    Blames (Begins (OptionalPhrase .relaxed)) (reportOf fun eof tokens => optional eof stop tokens)
      eof tokens := by
  by_cases hahead : NoneAhead [stop] tokens
  · have hread : Blames (Begins (OptionalPhrase .relaxed))
        (reportOf fun eof tokens => ((expression eof tokens).map some).weaken) eof tokens := by
      apply (blames_expression tokens).map.weaken.mono
      intro used h
      exact h.within [] fun tokens value hvalue => .of_phrase (.present hvalue)
    apply hread.of_sort (NoneAhead [stop]) hahead
    · intro other hhead
      exact Interchangeable.noneAhead (.inl hhead) hahead
    · intro eof tokens h
      rw [reportOf, optional_of_noneAhead eof h, reportOf]
  · obtain ⟨token, rest, rfl, hmem⟩ := exists_of_not_noneAhead hahead
    apply Blames.of_admits
    rw [reportOf, optional_of_kind eof (List.mem_singleton.mp hmem)]
    exact Reading.admits_nil

theorem begins_terminated {value : Expr} (h : Phrase .relaxed .assignment tokens value) :
    Begins (Terminated .relaxed) tokens :=
  ⟨[bare .semicolon], value, .intro h rfl⟩

theorem blames_terminated (make : Expr → Stmt) (fault : SyntaxFault)
    (hfatal : fault.isFatal = true) :
    Blames (Begins (Terminated .relaxed))
      (reportOf fun eof tokens => terminated eof make fault tokens) eof tokens := by
  apply (blames_expression tokens).andThen (local_expression eof tokens)
    (sound_expression eof tokens)
  · intro used h
    exact h.within [] fun tokens value hvalue => begins_terminated hvalue
  · intro value rest left
    apply blames_expect_map hfatal
    intro used hvalue
    rw [List.append_nil]
    exact begins_terminated hvalue

theorem blames_variableDeclaration :
    Blames (fun used => ∀ word, word.kind = .keyword .var →
      Begins (Variable .relaxed) (word :: used)) (reportOf variableDeclaration) eof tokens := by
  apply blames_expect_andThen rfl
  · intro word hword
    exact ⟨[bare .identifier, bare .semicolon], _, .bare hword rfl rfl⟩
  · intro name rest left
    apply Blames.accept
    · intro equals after short hequals _
      apply (blames_terminated _ .noSemicolonAfterVariable rfl).mono
      intro used h hname word hword
      apply h.within [word, name, equals]
      intro tokens value hvalue
      cases hvalue with
      | intro hvalue hsemicolon =>
          exact .of_phrase (.initial hword hname (List.mem_singleton.mp hequals) hvalue hsemicolon)
    · intro _
      apply blames_expect_map rfl
      intro hname word hword
      exact ⟨[bare .semicolon], _, .bare hword hname rfl⟩

/-- The tokens are a statement, open or not. -/
def AnyStatement (insideFunction : Bool) (tokens : List Token) (statement : Stmt) : Prop :=
  ∃ ended, Statement .relaxed insideFunction ended tokens statement

theorem blames_returned (insideFunction : Bool) {keyword : Token}
    (hkeyword : keyword.kind = .keyword .return) :
    Blames (fun used => Begins (AnyStatement insideFunction) (keyword :: used))
      (reportOf fun eof tokens => returned eof insideFunction keyword tokens) eof tokens := by
  have hclosed {tokens : List Token} {value : Option Expr}
      (hvalue : OptionalPhrase .relaxed tokens value) :
      Begins (AnyStatement insideFunction) (keyword :: tokens) :=
    ⟨[bare .semicolon], _, false, .ret hkeyword (fun hstrict => nomatch hstrict) hvalue rfl⟩
  apply Blames.noting
  · intro _ _
    split
    · exact Reading.admits_nil
    · exact Reading.admits_singleton rfl fun hstrict => nomatch hstrict
  · apply (blames_optional .semicolon).andThen (local_optional eof .semicolon)
      (sound_optional eof .semicolon)
    · intro used h
      exact h.within [keyword] fun tokens value hvalue => hclosed hvalue
    · intro value rest left
      apply blames_expect_map rfl
      intro used hvalue
      rw [List.append_nil]
      exact hclosed hvalue

theorem begins_condition {opening : Token} {test : Expr} (hopening : opening.kind = .leftParen)
    (htest : Phrase .relaxed .assignment tokens test) :
    Begins (Condition .relaxed) (opening :: tokens) :=
  ⟨[bare .rightParen], test, .intro hopening htest rfl⟩

theorem blames_condition {noOpening noClosing : SyntaxFault} (hopening : noOpening.isFatal = true)
    (hclosing : noClosing.isFatal = true) :
    Blames (Begins (Condition .relaxed))
      (reportOf fun eof tokens => condition eof noOpening noClosing tokens) eof tokens := by
  have hparen {opening : Token} (hkind : opening.kind = .leftParen) :
      Begins (Condition .relaxed) [opening] :=
    (begins_phrase .assignment).within [opening] fun _ _ htest => begins_condition hkind htest
  apply blames_expect_andThen hopening
  · exact (hparen rfl : Begins _ [bare .leftParen]).front []
  · intro opening rest left
    apply (blames_expression rest).andThen (local_expression eof rest) (sound_expression eof rest)
    · intro used h hkind
      exact h.within [opening] fun _ _ htest => begins_condition hkind htest
    · intro test unread within
      apply blames_expect_map hclosing
      intro used htest hkind
      rw [List.append_nil]
      exact begins_condition hkind htest

theorem blames_parameters (count : Nat) :
    Blames (Begins Parameters) (reportOf fun eof tokens => parameters eof count tokens) eof
      tokens := by
  fun_induction parameters eof count tokens with
  | case1 count tokens ih =>
      apply Blames.of_eq fun eof tokens => by rw [parameters]
      apply Blames.noting fun eof tokens => admits_excess eof rfl (by simp)
      apply blames_expect_andThen rfl
      · exact ⟨[bare .identifier], _, .last rfl⟩
      · intro name rest left
        apply Blames.accept
        · intro comma after short hcomma _
          apply (ih rest left after short).map.mono
          intro used h hname
          exact h.within [name, comma] fun tokens names hnames =>
            .of_phrase (.more hname (List.mem_singleton.mp hcomma) hnames)
        · intro _
          exact .done

theorem begins_parameterList {opening : Token} {names : List Token}
    (hopening : opening.kind = .leftParen) (hnames : Parameters tokens names) :
    Begins (ParameterList .relaxed) (opening :: tokens) :=
  ⟨[bare .rightParen], names, .some hopening hnames (fun hstrict => nomatch hstrict) rfl⟩

theorem blames_parameterList :
    Blames (fun used => ∀ opening, opening.kind = .leftParen →
      Begins (ParameterList .relaxed) (opening :: used)) (reportOf parameterList) eof tokens := by
  apply Blames.accept
  · intro closing after short _ _
    exact .done
  · intro _
    apply (blames_parameters 0).andThen (local_parameters eof 0) (sound_parameters eof 0)
    · intro used h opening hopening
      exact h.within [opening] fun tokens names hnames => begins_parameterList hopening hnames
    · intro names rest left
      apply blames_expect_map rfl
      rintro used ⟨hnames, _⟩ opening hopening
      rw [List.append_nil]
      exact begins_parameterList hopening hnames

/-- The tokens are the name and the parameters of a function, and the brace that opens its
body. -/
def IsSignature (tokens : List Token) (head : Token × List Token) : Prop :=
  ∃ header opening, tokens = head.1 :: (header ++ [opening]) ∧ head.1.kind = .identifier ∧
    ParameterList .relaxed header head.2 ∧ opening.kind = .leftBrace

theorem begins_signature {name : Token} {header names : List Token}
    (hname : name.kind = .identifier) (hnames : ParameterList .relaxed header names) :
    Begins IsSignature (name :: header) :=
  ⟨[bare .leftBrace], (name, names), header, _, rfl, hname, hnames, rfl⟩

theorem blames_signature : Blames (Begins IsSignature) (reportOf signature) eof tokens := by
  have hlist {name opening : Token} (hname : name.kind = .identifier)
      (hopening : opening.kind = .leftParen) : Begins IsSignature [name, opening] :=
    have hclosing : (bare .rightParen).kind = .rightParen := rfl
    (begins_signature hname (.none hopening hclosing)).front [name, opening]
  apply blames_expect_andThen rfl
  · exact (hlist (rfl : (bare .identifier).kind = _) (rfl : (bare .leftParen).kind = _)).front []
  · intro name rest left
    apply blames_expect_andThen rfl
    · intro hname
      exact (hlist hname (rfl : (bare .leftParen).kind = _)).front [name]
    · intro opening rest left
      apply blames_parameterList.andThen (local_parameterList eof) (sound_parameterList eof)
      · intro used h hopening hname
        exact (h opening hopening).within [name] fun header names hnames =>
          begins_signature hname hnames
      · intro names rest left
        apply blames_expect_map rfl
        intro used hnames hopening hname
        simpa using begins_signature hname (hnames opening hopening)

theorem blames_initialClause :
    Blames (Begins (Initial .relaxed)) (reportOf initialClause) eof tokens := by
  apply Blames.accept
  · intro semicolon after short _ _
    exact .done
  · intro _
    apply Blames.accept
    · intro word after short hword _
      apply blames_variableDeclaration.map.mono
      intro used h
      exact (h word (List.mem_singleton.mp hword)).within [] fun tokens declared hdeclared =>
        .of_phrase (.declared hdeclared)
    · intro _
      apply (blames_terminated .expression .noSemicolonAfterExpression rfl).map.mono
      intro used h
      exact h.within [] fun tokens value hvalue => .of_phrase (.expression hvalue)

/-- The tokens are the clauses of a counting loop. -/
def IsClauses (tokens : List Token) (parts : Clauses) : Prop :=
  Parts .relaxed tokens parts.initial parts.condition parts.step

section

variable {opening semicolon : Token} {first second third : List Token} {initial : Option Stmt}
  {condition step : Option Expr}

theorem begins_clauses_step (hopening : opening.kind = .leftParen)
    (hinitial : Initial .relaxed first initial)
    (hcondition : OptionalPhrase .relaxed second condition)
    (hsemicolon : semicolon.kind = .semicolon) (hstep : OptionalPhrase .relaxed third step) :
    Begins IsClauses (opening :: (first ++ (second ++ semicolon :: third))) := by
  refine ⟨[bare .rightParen], ⟨initial, condition, step⟩, ?_⟩
  simpa [IsClauses] using Parts.intro hopening hinitial hcondition hsemicolon hstep
    (rfl : (bare .rightParen).kind = _)

theorem begins_clauses_condition (hopening : opening.kind = .leftParen)
    (hinitial : Initial .relaxed first initial)
    (hcondition : OptionalPhrase .relaxed second condition) :
    Begins IsClauses (opening :: (first ++ second)) := by
  have hsemicolon : (bare .semicolon).kind = .semicolon := rfl
  apply Begins.front
  simpa using begins_clauses_step hopening hinitial hcondition hsemicolon .absent

theorem begins_clauses_initial (hopening : opening.kind = .leftParen)
    (hinitial : Initial .relaxed first initial) : Begins IsClauses (opening :: first) := by
  simpa using begins_clauses_condition hopening hinitial .absent

end

theorem blames_clauses : Blames (Begins IsClauses) (reportOf clauses) eof tokens := by
  have hparen {opening : Token} (hopening : opening.kind = .leftParen) :
      Begins IsClauses [opening] :=
    (begins_clauses_initial hopening (.none (rfl : (bare .semicolon).kind = _))).front [opening]
  apply blames_expect_andThen rfl
  · exact (hparen (rfl : (bare .leftParen).kind = _)).front []
  intro opening rest left
  apply blames_initialClause.andThen (local_initialClause eof) (sound_initialClause eof)
  · intro used h hopening
    exact h.within [opening] fun first initial hinitial => begins_clauses_initial hopening hinitial
  intro initial rest left
  apply (blames_optional .semicolon).andThen (local_optional eof .semicolon)
    (sound_optional eof .semicolon)
  · intro used h first hinitial hopening
    exact h.within (opening :: first) fun second condition hcondition =>
      begins_clauses_condition hopening hinitial hcondition
  intro condition rest left
  apply blames_expect_andThen rfl
  · intro second hcondition first hinitial hopening
    simpa using begins_clauses_condition hopening hinitial hcondition
  intro semicolon rest left
  apply (blames_optional .rightParen).andThen (local_optional eof .rightParen)
    (sound_optional eof .rightParen)
  · intro used h hsemicolon second hcondition first hinitial hopening
    have hclauses := h.within (Q := IsClauses) (opening :: (first ++ (second ++ [semicolon])))
      fun third step hstep => by
        simpa using begins_clauses_step hopening hinitial hcondition hsemicolon hstep
    simpa using hclauses
  intro step rest left
  apply blames_expect_map rfl
  intro third hstep hsemicolon second hcondition first hinitial hopening
  simpa using begins_clauses_step hopening hinitial hcondition hsemicolon hstep

/-! ## How statements are completed -/

/-- The tokens are declarations and the brace that closes the block they stand in. -/
def IsBlock (insideFunction : Bool) (tokens : List Token) (body : List Stmt) : Prop :=
  ∃ inner closing, tokens = inner ++ [closing] ∧
    Declarations .relaxed insideFunction inner body ∧ closing.kind = .rightBrace

section

variable {insideFunction : Bool} {word : Token} {header used : List Token} {test : Expr}

theorem begins_block : Begins (IsBlock insideFunction) [] :=
  ⟨[bare .rightBrace], [], [], _, rfl, .nil, rfl⟩

/-- Declarations stand in the block before whatever begins the rest of it. -/
theorem begins_block_cons {statement : Stmt}
    (hfirst : Declaration .relaxed insideFunction tokens statement)
    (h : Begins (IsBlock insideFunction) used) :
    Begins (IsBlock insideFunction) (tokens ++ used) := by
  apply h.within tokens
  rintro _ body ⟨inner, closing, rfl, hbody, hclosing⟩
  refine .of_phrase ⟨tokens ++ inner, closing, ?_, .cons hfirst hbody, hclosing⟩
  rw [List.append_assoc]

theorem begins_statement : Begins (AnyStatement insideFunction) [] :=
  ⟨[bare .leftBrace, bare .rightBrace], _, false, .block rfl .nil rfl⟩

theorem begins_expression (h : Begins (Terminated .relaxed) used) :
    Begins (AnyStatement insideFunction) used :=
  h.within [] fun _ _ hvalue => .of_phrase ⟨false, .expression hvalue⟩

theorem begins_print (hword : word.kind = .keyword .print) (h : Begins (Terminated .relaxed) used) :
    Begins (AnyStatement insideFunction) (word :: used) :=
  h.within [word] fun _ _ hvalue => .of_phrase ⟨false, .print hword hvalue⟩

theorem begins_braced (hword : word.kind = .leftBrace) (h : Begins (IsBlock insideFunction) used) :
    Begins (AnyStatement insideFunction) (word :: used) := by
  apply h.within [word]
  rintro _ body ⟨inner, closing, rfl, hbody, hclosing⟩
  exact .of_phrase ⟨false, .block hword hbody hclosing⟩

theorem begins_loop (hword : word.kind = .keyword .while) (htest : Condition .relaxed header test)
    (h : Begins (AnyStatement insideFunction) used) :
    Begins (AnyStatement insideFunction) (word :: (header ++ used)) := by
  apply h.within (word :: header)
  rintro tokens body ⟨ended, hbody⟩
  exact .of_phrase ⟨ended, .loop hword htest hbody⟩

theorem begins_counting {parts : Clauses} (hword : word.kind = .keyword .for)
    (hparts : IsClauses header parts) (h : Begins (AnyStatement insideFunction) used) :
    Begins (AnyStatement insideFunction) (word :: (header ++ used)) := by
  apply h.within (word :: header)
  rintro tokens body ⟨ended, hbody⟩
  exact .of_phrase ⟨ended, .counting hword hparts hbody⟩

theorem begins_branch (hword : word.kind = .keyword .if) (htest : Condition .relaxed header test)
    (h : Begins (AnyStatement insideFunction) used) :
    Begins (AnyStatement insideFunction) (word :: (header ++ used)) := by
  apply h.within (word :: header)
  rintro tokens body ⟨ended, hbody⟩
  exact .of_phrase ⟨true, .branch hword htest hbody⟩

theorem begins_branchElse {other : Token} {consequent : Stmt} {before : List Token}
    (hword : word.kind = .keyword .if) (htest : Condition .relaxed header test)
    (hconsequent : Statement .relaxed insideFunction false before consequent)
    (hother : other.kind = .keyword .else) (h : Begins (AnyStatement insideFunction) used) :
    Begins (AnyStatement insideFunction) (word :: (header ++ before ++ other :: used)) := by
  have halternative := h.within (Q := AnyStatement insideFunction)
      (word :: (header ++ before ++ [other])) fun tokens body hbody => by
    obtain ⟨ended, hbody⟩ := hbody
    have hbranch := Statement.branchElse hword htest hconsequent hother hbody
    exact ⟨[], .branch test consequent (some body), ended, by simpa using hbranch⟩
  simpa using halternative

theorem begins_declared (h : Begins (Variable .relaxed) used) :
    Begins (Declaration .relaxed insideFunction) used :=
  h.within [] fun _ _ hdeclared => .of_phrase (.declared hdeclared)

theorem begins_declaration (h : Begins (AnyStatement insideFunction) used) :
    Begins (Declaration .relaxed insideFunction) used := by
  apply h.within []
  rintro tokens statement ⟨ended, hstatement⟩
  exact .of_phrase (.statement hstatement)

theorem begins_function {head : Token × List Token} (hword : word.kind = .keyword .fun)
    (hhead : IsSignature header head) (h : Begins (IsBlock true) used) :
    Begins (Declaration .relaxed insideFunction) (word :: (header ++ used)) := by
  obtain ⟨names, opening, rfl, hname, hnames, hopening⟩ := hhead
  apply h.within (word :: (head.1 :: (names ++ [opening])))
  rintro _ body ⟨inner, closing, rfl, hbody, hclosing⟩
  have hfunction : Declaration .relaxed insideFunction _ _ :=
    .function hword hname hnames hopening hbody hclosing
  exact ⟨[], .function head.1 head.2 body, by simpa using hfunction⟩

end

/-! ## Declarations -/

variable {insideFunction : Bool} {first : Token} {after : List Token}

theorem errors_firstDeclaration :
    (firstDeclaration eof insideFunction tokens).errors =
      (declared eof insideFunction tokens).result.errors := by
  rw [firstDeclaration]
  cases (declared eof insideFunction tokens).result <;> rfl

/-- A declaration that is read without a fatal error is derived. -/
theorem sound_firstDeclaration
    (h : Reading.relaxed.Admits (firstDeclaration eof insideFunction (first :: after)).errors) :
    ∃ used statement,
      first :: after = used ++ (firstDeclaration eof insideFunction (first :: after)).rest ∧
        Declaration .relaxed insideFunction used statement := by
  have hsound : SoundRecovery .relaxed (Declaration .relaxed insideFunction)
      (declaration eof insideFunction first after) :=
    (sound_statementRules eof).1 insideFunction first after
  revert hsound
  rcases hdeclaration : declaration eof insideFunction first after with
    ⟨statement, rest, errors, shorter⟩
  rw [firstDeclaration_eq hdeclaration] at h ⊢
  intro hsound
  obtain ⟨used, read, _, hused, hread⟩ := hsound h
  exact ⟨used, read, hused, hread⟩

/-- Declarations are read one after the other. The first to have a fatal error is to
blame, and those before it stand before what is blamed. -/
theorem Blames.declaration {Fine : List Token → Prop}
    {report : Token → List Token → List SyntaxError}
    (hdeclared : Blames (Begins (Declaration .relaxed insideFunction))
      (reportOf fun eof tokens => declared eof insideFunction tokens) eof (first :: after))
    (hreport : ∀ eof tail, report eof (first :: tail) =
      (firstDeclaration eof insideFunction (first :: tail)).errors ++
        report eof (firstDeclaration eof insideFunction (first :: tail)).rest)
    (hothers : Blames Fine report eof (firstDeclaration eof insideFunction (first :: after)).rest)
    (hbegins : ∀ used, Begins (Declaration .relaxed insideFunction) used → Fine used)
    (hcons : ∀ used statement more, Declaration .relaxed insideFunction used statement →
      Fine more → Fine (used ++ more)) :
    Blames Fine report eof (first :: after) := by
  intro error herror
  rw [hreport, firstFatal_append] at herror
  cases hnoted : firstFatal (firstDeclaration eof insideFunction (first :: after)).errors with
  | some noted =>
      rw [hnoted, Option.some_or, ← hnoted, errors_firstDeclaration] at herror
      obtain ⟨used, rest, hused, htoken, hbefore, hagain⟩ := hdeclared error herror
      refine ⟨used, rest, hused, htoken, hbegins used hbefore, ?_⟩
      rintro next unread rfl eof' other
      obtain ⟨tail, htail⟩ := exists_tail hused other
      have hsame := hagain next unread rfl eof' other
      rw [reportOf, htail] at hsame
      rw [htail, hreport, firstFatal_append, errors_firstDeclaration, hsame, Option.some_or]
  | none =>
      rw [hnoted, Option.none_or] at herror
      obtain ⟨used, statement, hused, hread⟩ :=
        sound_firstDeclaration (firstFatal_eq_none_iff.mp hnoted)
      obtain ⟨more, rest, hmore, htoken, hbefore, hagain⟩ := hothers error herror
      refine ⟨used ++ more, rest, by rw [hused, hmore, List.append_assoc], htoken,
        hcons used statement more hread hbefore, ?_⟩
      rintro next unread rfl eof' other
      -- the declaration ends where it ended before, since the token after it is the same
      obtain ⟨token, later, hlater⟩ : ∃ token later, more ++ next :: unread = token :: later :=
        List.exists_cons_of_ne_nil (by simp)
      obtain ⟨front, hfront, hsame⟩ := firstDeclaration_again local_declared (hmore.trans hlater)
      obtain rfl : used = front := by
        rw [hmore, hlater, hfront] at hused
        exact (List.append_cancel_right hused).symm
      obtain ⟨tail, htail⟩ := exists_tail hlater.symm other
      obtain ⟨whole, hwhole⟩ := exists_tail hfront tail
      rw [List.append_assoc, htail, hwhole, hreport, ← hwhole, hsame eof' tail, firstFatal_append,
        hnoted, Option.none_or, ← htail]
      exact hagain next unread rfl eof' other

/-! ## Statements -/

/-- What the rules for statements blame. -/
theorem blames_statementRules :
    (∀ insideFunction first after, Blames (Begins (Declaration .relaxed insideFunction))
      (reportOf fun eof tokens => declared eof insideFunction tokens) eof (first :: after)) ∧
    (∀ insideFunction tokens, Blames (Begins (AnyStatement insideFunction))
      (reportOf fun eof tokens => statement eof insideFunction tokens) eof tokens) ∧
    (∀ insideFunction tokens, Blames (Begins (IsBlock insideFunction))
      (reportOf fun eof tokens => block eof insideFunction tokens) eof tokens) ∧
    (∀ insideFunction tokens, Blames (fun used => ∀ word, word.kind = .keyword .while →
        Begins (AnyStatement insideFunction) (word :: used))
      (reportOf fun eof tokens => loop eof insideFunction tokens) eof tokens) ∧
    (∀ insideFunction tokens, Blames (fun used => ∀ word, word.kind = .keyword .if →
        Begins (AnyStatement insideFunction) (word :: used))
      (reportOf fun eof tokens => branch eof insideFunction tokens) eof tokens) ∧
    (∀ insideFunction tokens, Blames (fun used => ∀ word, word.kind = .keyword .for →
        Begins (AnyStatement insideFunction) (word :: used))
      (reportOf fun eof tokens => countingLoop eof insideFunction tokens) eof tokens) ∧
    (∀ tokens, Blames (fun used => ∀ word inside, word.kind = .keyword .fun →
        Begins (Declaration .relaxed inside) (word :: used)) (reportOf function) eof tokens) := by
  refine declaration.mutual_induct eof _ _ _ _ _ _ _ ?declaration ?atEnd ?counting ?branching
    ?printing ?returning ?looping ?brace ?expression ?blockAtEnd ?blockEnd ?blockMore ?loop ?branch
    ?countingLoop ?function
  case declaration =>
    intro insideFunction first after ihfunction ihstatement
    by_cases hfun : first.kind = .keyword .fun
    · have hfunction := ihfunction.mono fun used h => h first insideFunction hfun
      exact hfunction.cons fun eof tokens => declared_fun eof hfun
    by_cases hvar : first.kind = .keyword .var
    · have hvariable : Blames
          (fun used => Begins (Declaration .relaxed insideFunction) (first :: used))
          (reportOf variableDeclaration) eof after :=
        blames_variableDeclaration.mono fun used h => begins_declared (h first hvar)
      exact hvariable.cons fun eof tokens => declared_var eof hvar
    have hstatement := ihstatement.mono fun used => begins_declaration
    exact hstatement.of_head fun eof tokens => declared_statement eof hfun hvar
  case atEnd =>
    intro insideFunction
    have hterminated := (@blames_terminated eof [] .expression .noSemicolonAfterExpression rfl).mono
      fun used => @begins_expression insideFunction used
    apply hterminated.of_nil
    rw [reportOf, statement, reportOf]
  case counting =>
    intro insideFunction word after hword ih
    have hloop := ih.mono fun used h => h word hword
    exact hloop.cons fun eof tokens => statement_for eof hword
  case branching =>
    intro insideFunction word after hword ih
    have hbranch := ih.mono fun used h => h word hword
    exact hbranch.cons fun eof tokens => statement_if eof hword
  case printing =>
    intro insideFunction word after hword
    have hterminated := (@blames_terminated eof after .print .noSemicolonAfterValue rfl).mono
      fun used => @begins_print insideFunction word used hword
    exact hterminated.cons fun eof tokens => statement_print eof hword
  case returning =>
    intro insideFunction word after hword
    have hreturned := @blames_returned eof after insideFunction word hword
    exact hreturned.cons fun eof tokens => statement_return eof hword
  case looping =>
    intro insideFunction word after hword ih
    have hloop := ih.mono fun used h => h word hword
    exact hloop.cons fun eof tokens => statement_while eof hword
  case brace =>
    intro insideFunction opening after hopening ih
    have hblock := (ih.map (f := Stmt.block)).mono fun used => begins_braced hopening
    exact hblock.cons fun eof tokens => statement_block eof hopening
  case expression =>
    intro insideFunction first after hfor hif hprint hreturn hwhile hbrace
    have hterminated := (@blames_terminated eof (first :: after) .expression
      .noSemicolonAfterExpression rfl).mono fun used => @begins_expression insideFunction used
    exact hterminated.of_head fun eof tokens =>
      statement_expression eof hfor hif hprint hreturn hwhile hbrace
  case blockAtEnd =>
    intro insideFunction
    apply Blames.at_end .noBraceAfterBlock begins_block
    rw [reportOf, result_block_nil]
    rfl
  case blockEnd =>
    intro insideFunction closing after hclosing
    apply Blames.of_admits
    rw [reportOf, block, if_pos hclosing]
    exact Reading.admits_nil
  case blockMore =>
    intro insideFunction first after hfirst statement rest errors shorter heq ihfirst ihrest
    apply Blames.declaration ihfirst
    · intro eof tail
      rw [reportOf, result_block_cons hfirst, Result.errors_noting, Result.errors_map, reportOf]
    · rw [firstDeclaration_eq heq]
      exact ihrest
    · intro used h
      apply h.within []
      intro tokens statement hread
      simpa using begins_block_cons hread begins_block
    · intro used statement more
      exact begins_block_cons
  case loop =>
    intro insideFunction tokens ihbody
    apply Blames.of_eq fun eof tokens => by rw [loop]
    apply (blames_condition rfl rfl).andThen (local_condition eof) (sound_condition eof rfl rfl)
    · intro used h word hword
      apply h.within [word]
      intro header test htest
      simpa using begins_loop hword htest begins_statement
    · intro test rest left
      apply (ihbody rest left).map.mono
      intro used h header htest word hword
      exact begins_loop hword htest h
  case branch =>
    intro insideFunction tokens ihconsequent ihalternative
    apply Blames.of_eq fun eof tokens => by rw [branch]
    apply (blames_condition rfl rfl).andThen (local_condition eof) (sound_condition eof rfl rfl)
    · intro used h word hword
      apply h.within [word]
      intro header test htest
      simpa using begins_branch hword htest begins_statement
    intro test rest left
    apply (ihconsequent rest left).andThen (local_statementRules.2.1 insideFunction rest)
      ((sound_statementRules eof).2.1 insideFunction rest)
    · intro used h header htest word hword
      exact begins_branch hword htest h
    intro consequent unread within
    apply Blames.accept
    · intro other after short hother hunread
      apply (ihalternative rest left unread within after short).map.mono
      rintro used h before ⟨ended, hconsequent, hclosed⟩ header htest word hword
      -- a consequent that is open would have taken the alternative
      have hended : ended = false := by
        cases ended with
        | false => rfl
        | true =>
            have hahead := hclosed rfl
            rw [hunread, noneAhead_cons] at hahead
            exact absurd hother hahead
      subst hended
      simpa using begins_branchElse hword htest hconsequent (List.mem_singleton.mp hother) h
    · intro _
      exact .done
  case countingLoop =>
    intro insideFunction tokens ihbody
    apply Blames.of_eq fun eof tokens => by rw [countingLoop]
    apply blames_clauses.andThen (local_clauses eof) (sound_clauses eof)
    · intro used h word hword
      apply h.within [word]
      intro header parts hparts
      simpa using begins_counting hword hparts begins_statement
    · intro parts rest left
      apply (ihbody rest left).map.mono
      intro used h header hparts word hword
      exact begins_counting hword hparts h
  case function =>
    intro tokens ihbody
    apply Blames.of_eq fun eof tokens => by rw [function]
    apply blames_signature.andThen (local_signature eof) (sound_signature eof)
    · intro used h word inside hword
      apply h.within [word]
      intro header head hhead
      simpa using begins_function hword hhead begins_block
    · rintro ⟨name, names⟩ rest left
      apply (ihbody rest left).map.mono
      intro used h header hhead word inside hword
      exact begins_function hword hhead h

/-- What is blamed among the declarations of a program. -/
theorem blames_declarations (tokens : List Token) :
    Blames (Begins (Derives .relaxed)) (fun eof tokens => (declarations eof tokens).2) eof
      tokens := by
  fun_induction declarations eof tokens with
  | case1 =>
      apply Blames.of_admits
      rw [declarations]
      exact Reading.admits_nil
  | case2 first after statement rest errors shorter heq others ih =>
      apply Blames.declaration (blames_statementRules.1 false first after)
      · intro eof tail
        rw [declarations_eq_firstDeclaration]
      · rw [firstDeclaration_eq heq]
        exact ih
      · intro used h
        exact h.within [] fun tokens statement hread => ⟨[], [statement], .cons hread .nil⟩
      · intro used statement more hread h
        exact h.within used fun tokens program hprogram => .of_phrase (.cons hread hprogram)

end Grammar

end LoxLang
