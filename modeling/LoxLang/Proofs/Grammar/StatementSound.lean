/-
# Programs that are read derive

What the rules for statements read is derived by the grammar. A declaration whose
fatal error was recovered from is not derived, but then the error was noted, and no
reading admits it.

A statement that was read and is open is not followed by an `else`: the branch at
its end would have taken it. That is what makes an alternative belong to the nearest
branch, and so it is shown along with the derivation.
-/

import LoxLang.Proofs.Grammar.ExpressionSound

namespace LoxLang

open Attempt

namespace Grammar

variable (eof : Token) {reading : Reading} {tokens : List Token}

/-! ## Parts of statements -/

theorem sound_optional (stop : TokenKind) :
    (optional eof stop tokens).Sound reading fun used value _ =>
      OptionalPhrase reading used value := by
  rw [optional]
  split
  · exact sound_done .absent
  · apply Sound.weaken
    apply Sound.map
    apply (sound_expression eof tokens).mono
    intro used value rest h
    exact .present h

theorem sound_terminated {make : Expr → Stmt} {fault : SyntaxFault}
    (hfatal : fault.isFatal = true) :
    (terminated eof make fault tokens).Sound reading fun used statement _ =>
      ∃ value, statement = make value ∧ Terminated reading used value := by
  rw [terminated]
  apply (sound_expression eof tokens).andThen
  intro value rest left
  apply sound_expect_map eof hfatal
  intro semicolon unread hsemicolon used hvalue
  exact ⟨value, rfl, .intro hvalue hsemicolon⟩

theorem sound_variableDeclaration :
    (variableDeclaration eof tokens).Sound reading fun used declared _ =>
      ∀ word, word.kind = .keyword .var → Variable reading (word :: used) declared := by
  rw [variableDeclaration]
  apply (sound_expect eof rfl).andThen
  intro name rest left
  apply sound_accept
  · intro equals after short hequals _
    apply (sound_terminated eof rfl).mono
    rintro more _ unread ⟨value, rfl, hvalue⟩ used ⟨rfl, hname⟩ word hword
    cases hvalue with
    | intro hvalue hsemicolon =>
        exact .initial hword hname (List.mem_singleton.mp hequals) hvalue hsemicolon
  · intro _
    apply sound_expect_map eof rfl
    rintro semicolon unread hsemicolon used ⟨rfl, hname⟩ word hword
    exact .bare hword hname hsemicolon

theorem sound_returned {insideFunction : Bool} {keyword : Token} :
    (returned eof insideFunction keyword tokens).Sound reading fun used statement _ =>
      keyword.kind = .keyword .return →
        Statement reading insideFunction false (keyword :: used) statement := by
  rw [returned]
  apply Sound.noting
  apply (sound_optional eof .semicolon).andThen
  intro value rest left
  apply sound_expect_map eof rfl
  intro semicolon unread hsemicolon used hvalue hadmits hkeyword
  refine .ret hkeyword (fun hstrict => ?_) hvalue hsemicolon
  have hnil := Reading.eq_nil_of_admits hadmits hstrict
  split at hnil
  next hinside => exact hinside
  next => cases hnil

theorem sound_condition {noOpening noClosing : SyntaxFault} (hopening : noOpening.isFatal = true)
    (hclosing : noClosing.isFatal = true) :
    (condition eof noOpening noClosing tokens).Sound reading fun used test _ =>
      Condition reading used test := by
  rw [condition]
  apply (sound_expect eof hopening).andThen
  intro opening rest left
  apply (sound_expression eof rest).andThen
  intro test rest left
  apply sound_expect_map eof hclosing
  rintro closing unread hclosing used htest _ ⟨rfl, hopening⟩
  exact .intro hopening htest hclosing

theorem sound_parameters (count : Nat) :
    (parameters eof count tokens).Sound reading fun used names _ =>
      Parameters used names ∧ (reading = .strict → count + names.length ≤ 255) := by
  fun_induction parameters eof count tokens with
  | case1 count tokens ih =>
      apply Sound.noting
      apply (sound_expect eof rfl).andThen
      intro name rest left
      apply sound_accept
      · intro comma after short hcomma _
        apply Sound.map
        apply (ih rest left after short).mono
        rintro more names unread ⟨hnames, hbound⟩ _ ⟨rfl, hname⟩ _
        refine ⟨.more hname (List.mem_singleton.mp hcomma) hnames, fun hstrict => ?_⟩
        have := hbound hstrict
        simp only [List.length_cons]
        omega
      · intro _
        apply sound_done
        rintro _ ⟨rfl, hname⟩ hadmits
        refine ⟨.last hname, fun hstrict => ?_⟩
        have := lt_of_excess eof (Reading.eq_nil_of_admits hadmits hstrict)
        simp only [List.length_cons, List.length_nil]
        omega

theorem sound_parameterList :
    (parameterList eof tokens).Sound reading fun used names _ =>
      ∀ opening, opening.kind = .leftParen → ParameterList reading (opening :: used) names := by
  rw [parameterList]
  apply sound_accept
  · intro closing after short hclosing _
    apply sound_done
    intro opening hopening
    exact .none hopening (List.mem_singleton.mp hclosing)
  · intro _
    apply (sound_parameters eof 0).andThen
    intro names rest left
    apply sound_expect_map eof rfl
    rintro closing unread hclosing used ⟨hnames, hbound⟩ opening hopening
    refine .some hopening hnames (fun hstrict => ?_) hclosing
    simpa using hbound hstrict

theorem sound_signature :
    (signature eof tokens).Sound reading fun used head _ =>
      ∃ header opening, used = head.1 :: (header ++ [opening]) ∧ head.1.kind = .identifier ∧
        ParameterList reading header head.2 ∧ opening.kind = .leftBrace := by
  rw [signature]
  apply (sound_expect eof rfl).andThen
  intro name rest left
  apply (sound_expect eof rfl).andThen
  intro paren rest left
  apply (sound_parameterList eof).andThen
  intro names rest left
  apply sound_expect_map eof rfl
  rintro brace unread hbrace used hnames _ ⟨rfl, hparen⟩ _ ⟨rfl, hname⟩
  exact ⟨paren :: used, brace, rfl, hname, hnames paren hparen, hbrace⟩

theorem sound_initialClause :
    (initialClause eof tokens).Sound reading fun used initial _ =>
      Initial reading used initial := by
  rw [initialClause]
  apply sound_accept
  · intro semicolon after short hsemicolon _
    exact sound_done (.none (List.mem_singleton.mp hsemicolon))
  · intro _
    apply sound_accept
    · intro word after short hword _
      apply Sound.map
      apply (sound_variableDeclaration eof).mono
      intro used declared rest h
      exact .declared (h word (List.mem_singleton.mp hword))
    · intro _
      apply Sound.map
      apply (sound_terminated eof rfl).mono
      rintro used _ rest ⟨value, rfl, hvalue⟩
      exact .expression hvalue

theorem sound_clauses :
    (clauses eof tokens).Sound reading fun used parts _ =>
      Parts reading used parts.initial parts.condition parts.step := by
  rw [clauses]
  apply (sound_expect eof rfl).andThen
  intro opening rest left
  apply (sound_initialClause eof).andThen
  intro initial rest left
  apply (sound_optional eof .semicolon).andThen
  intro condition rest left
  apply (sound_expect eof rfl).andThen
  intro semicolon rest left
  apply (sound_optional eof .rightParen).andThen
  intro step rest left
  apply sound_expect_map eof rfl
  rintro closing unread hclosing third hstep _ ⟨rfl, hsemicolon⟩ second hcondition
    first hinitial _ ⟨rfl, hopening⟩
  simpa using Parts.intro hopening hinitial hcondition hsemicolon hstep hclosing

/-! ## Statements and declarations -/

/-- What was read is a statement. If it is open, no `else` is ahead. -/
def IsStatement (reading : Reading) (inside : Bool) (used : List Token) (statement : Stmt)
    (rest : List Token) : Prop :=
  ∃ ended, Statement reading inside ended used statement ∧
    (ended = true → NoneAhead [.keyword .else] rest)

theorem IsStatement.of_closed {inside : Bool} {used rest : List Token} {statement : Stmt}
    (h : Statement reading inside false used statement) :
    IsStatement reading inside used statement rest :=
  ⟨false, h, fun hopen => by cases hopen⟩

/-- What became of a declaration, if its errors are admitted. -/
def SoundRecovery (reading : Reading) (P : List Token → Stmt → Prop)
    (recovered : Recovered tokens) : Prop :=
  reading.Admits recovered.errors → ∃ used statement, recovered.statement = some statement ∧
    tokens = used ++ recovered.rest ∧ P used statement

/-- Recovering leaves a fatal error behind, so that only successes are admitted. -/
theorem Sound.recovered {first : Token} {after : List Token}
    {attempt : Attempt true Stmt (first :: after)} {P : List Token → Stmt → Prop}
    (h : attempt.Sound reading fun used statement _ => P used statement) :
    SoundRecovery reading P attempt.recovered := by
  cases attempt with
  | ok statement rest errors left =>
      intro hadmits
      obtain ⟨used, hused, hp⟩ := h hadmits
      exact ⟨used, statement, rfl, hused, hp⟩
  | fail fatal rest errors left =>
      intro hadmits
      exact absurd (Reading.admits_append.mp hadmits).2 (Reading.not_admits_fatal h)

theorem counting_eq_unrolled (initial : Option Stmt) (condition step : Option Expr)
    (body : Stmt) : Stmt.counting initial condition step body =
      unrolled initial condition step body := by
  cases initial <;> cases step <;> rfl

/-- What the rules for statements read is derived. -/
theorem sound_statementRules :
    (∀ insideFunction first after, SoundRecovery reading (Declaration reading insideFunction)
      (declaration eof insideFunction first after)) ∧
    (∀ insideFunction tokens, (statement eof insideFunction tokens).Sound reading
      (IsStatement reading insideFunction)) ∧
    (∀ insideFunction tokens, (block eof insideFunction tokens).Sound reading fun used body _ =>
      ∃ inner closing, used = inner ++ [closing] ∧ Declarations reading insideFunction inner body ∧
        closing.kind = .rightBrace) ∧
    (∀ insideFunction tokens, (loop eof insideFunction tokens).Sound reading
      fun used statement rest => ∀ word, word.kind = .keyword .while →
        IsStatement reading insideFunction (word :: used) statement rest) ∧
    (∀ insideFunction tokens, (branch eof insideFunction tokens).Sound reading
      fun used statement rest => ∀ word, word.kind = .keyword .if →
        IsStatement reading insideFunction (word :: used) statement rest) ∧
    (∀ insideFunction tokens, (countingLoop eof insideFunction tokens).Sound reading
      fun used statement rest => ∀ word, word.kind = .keyword .for →
        IsStatement reading insideFunction (word :: used) statement rest) ∧
    (∀ tokens, (function eof tokens).Sound reading fun used statement _ =>
      ∀ word inside, word.kind = .keyword .fun →
        Declaration reading inside (word :: used) statement) := by
  refine declaration.mutual_induct eof _ _ _ _ _ _ _ ?declaration ?atEnd ?counting ?branching
    ?printing ?returning ?looping ?brace ?expression ?blockAtEnd ?blockEnd ?blockMore ?loop ?branch
    ?countingLoop ?function
  case declaration =>
    intro insideFunction first after ihfunction ihstatement
    rw [declaration]
    apply Sound.recovered
    split
    next hfirst =>
      apply Sound.afterToken
      apply ihfunction.mono
      intro used statement rest h
      exact h first insideFunction hfirst
    next hfirst =>
      apply Sound.afterToken
      apply (sound_variableDeclaration eof).mono
      intro used declared rest h
      exact .declared (h first hfirst)
    next =>
      apply ihstatement.mono
      rintro used statement rest ⟨ended, h, _⟩
      exact .statement h
  case atEnd =>
    intro insideFunction
    rw [statement]
    apply (sound_terminated eof rfl).mono
    rintro used _ rest ⟨value, rfl, hvalue⟩
    exact .of_closed (.expression hvalue)
  case counting =>
    intro insideFunction word after hword ih
    rw [statement]
    simp only [hword]
    exact ih.afterWord hword
  case branching =>
    intro insideFunction word after hword ih
    rw [statement]
    simp only [hword]
    exact ih.afterWord hword
  case printing =>
    intro insideFunction word after hword
    rw [statement]
    simp only [hword]
    apply Sound.afterToken
    apply (sound_terminated eof rfl).mono
    rintro used _ rest ⟨value, rfl, hvalue⟩
    exact .of_closed (.print hword hvalue)
  case returning =>
    intro insideFunction word after hword
    rw [statement]
    simp only [hword]
    apply Sound.afterToken
    apply (sound_returned eof).mono
    intro used statement rest h
    exact .of_closed (h hword)
  case looping =>
    intro insideFunction word after hword ih
    rw [statement]
    simp only [hword]
    exact ih.afterWord hword
  case brace =>
    intro insideFunction opening after hopening ih
    rw [statement]
    simp only [hopening]
    apply Sound.afterToken
    apply Sound.map
    apply ih.mono
    rintro _ body rest ⟨inner, closing, rfl, hbody, hclosing⟩
    exact .of_closed (.block hopening hbody hclosing)
  case expression =>
    intro insideFunction first after hfor hif hprint hreturn hwhile hbrace
    rw [statement]
    split <;> try contradiction
    apply (sound_terminated eof rfl).mono
    rintro used _ rest ⟨value, rfl, hvalue⟩
    exact .of_closed (.expression hvalue)
  case blockAtEnd =>
    intro insideFunction
    rw [block]
    rfl
  case blockEnd =>
    intro insideFunction closing after hclosing
    rw [block, if_pos hclosing]
    apply Sound.afterToken
    apply sound_done
    exact ⟨[], closing, rfl, .nil, hclosing⟩
  case blockMore =>
    intro insideFunction first after hfirst statement rest errors shorter heq ihfirst ihrest
    rw [block, if_neg hfirst, heq]
    rw [heq] at ihfirst
    apply Sound.widen
    apply Sound.noting
    apply Sound.map
    apply ihrest.mono
    rintro _ body unread ⟨inner, closing, rfl, hbody, hclosing⟩ hadmits
    obtain ⟨used, read, hread, hused, hderived⟩ := ihfirst hadmits
    cases hread
    refine ⟨used, hused, used ++ inner, closing, ?_, .cons hderived hbody, hclosing⟩
    rw [List.append_assoc]
  case loop =>
    intro insideFunction tokens ihbody
    rw [loop]
    apply (sound_condition eof rfl rfl).andThen
    intro test rest left
    apply Sound.map
    apply (ihbody rest left).mono
    rintro more body unread ⟨ended, hbody, hahead⟩ used htest word hword
    exact ⟨ended, .loop hword htest hbody, hahead⟩
  case branch =>
    intro insideFunction tokens ihconsequent ihalternative
    rw [branch]
    apply (sound_condition eof rfl rfl).andThen
    intro test rest left
    apply (ihconsequent rest left).andThen
    intro consequent unread within
    apply sound_accept
    · intro other after short hother hunread
      apply Sound.map
      apply (ihalternative rest left unread within after short).mono
      rintro more alternative _ ⟨ended, halternative, hahead⟩ middle ⟨open', hconsequent, hclosed⟩
        used htest word hword
      have hnotOpen : open' = false := by
        cases open' with
        | false => rfl
        | true =>
            have hahead := hclosed rfl
            rw [hunread, noneAhead_cons] at hahead
            exact absurd hother hahead
      subst hnotOpen
      refine ⟨ended, ?_, hahead⟩
      simpa using Statement.branchElse hword htest hconsequent (List.mem_singleton.mp hother)
        halternative
    · intro hahead
      apply sound_done
      rintro middle ⟨ended, hconsequent, _⟩ used htest word hword
      refine ⟨true, ?_, fun _ => hahead⟩
      simpa using Statement.branch hword htest hconsequent
  case countingLoop =>
    intro insideFunction tokens ihbody
    rw [countingLoop]
    apply (sound_clauses eof).andThen
    intro parts rest left
    apply Sound.map
    apply (ihbody rest left).mono
    rintro more body unread ⟨ended, hbody, hahead⟩ used hparts word hword
    rw [counting_eq_unrolled]
    exact ⟨ended, .counting hword hparts hbody, hahead⟩
  case function =>
    intro tokens ihbody
    rw [function]
    apply (sound_signature eof).andThen
    rintro ⟨name, names⟩ rest left
    apply Sound.map
    apply (ihbody rest left).mono
    rintro _ body unread ⟨inner, closing, rfl, hbody, hclosing⟩ _
      ⟨header, opening, rfl, hname, hnames, hopening⟩ word inside hword
    simpa using Declaration.function hword hname hnames hopening hbody hclosing

end Grammar

end LoxLang
