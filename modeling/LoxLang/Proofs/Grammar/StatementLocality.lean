/-
# How far statements look ahead

The rules for statements are local too. Only a statement that ends with a branch minds
what follows it, which must not be an `else`; all others end with a token of their own.

Inside of a block the tokens after an error are dropped. Where that stops may depend on
the token at which it stops, but on none after it.
-/

import LoxLang.Proofs.Grammar.ExpressionLocality

namespace LoxLang

open Attempt

namespace Grammar

variable (eof : Token) {tokens : List Token}

/-! ## Parts of statements -/

theorem optional_of_noneAhead {stop : TokenKind} (h : NoneAhead [stop] tokens) :
    optional eof stop tokens = ((expression eof tokens).map some).weaken := by
  cases tokens with
  | nil => rfl
  | cons token rest =>
      rw [noneAhead_cons, List.mem_singleton] at h
      simp [optional, startsWith, h]

theorem optional_of_kind {stop : TokenKind} {token : Token} {rest : List Token}
    (h : token.kind = stop) : optional eof stop (token :: rest) = done none := by
  simp [optional, startsWith, h]

theorem local_optional (stop : TokenKind) :
    Local (stop :: .equal :: continuations tiers)
      (fun eof tokens => optional eof stop tokens) eof tokens := by
  have hsub : ∀ kind ∈ [stop], kind ∈ stop :: .equal :: continuations tiers := by
    intro kind hkind
    rw [List.mem_singleton.mp hkind]
    exact List.mem_cons_self
  by_cases hahead : NoneAhead [stop] tokens
  · have hread := ((local_expression eof tokens).map (f := some)).weaken.mono
      fun kind => List.mem_cons_of_mem stop
    apply hread.of_sort (NoneAhead [stop]) hahead (Local.noneAhead (fun _ => hsub) hahead)
    intro eof tokens h
    rw [optional_of_noneAhead eof h]
  · obtain ⟨token, rest, rfl, hmem⟩ := exists_of_not_noneAhead hahead
    have hkind := List.mem_singleton.mp hmem
    have hdone : Local (stop :: .equal :: continuations tiers)
        (fun _ tokens => (done none : Attempt false (Option Expr) tokens)) eof
        (token :: rest) := .done
    apply hdone.of_sort (·.head? = some token) rfl
    · rintro other (hhead | ⟨_, hhead | ⟨hnone, _⟩⟩)
      · exact hhead.symm
      · exact hhead.symm
      · exact absurd (hkind ▸ List.mem_cons_self) (noneAhead_cons.mp hnone)
    · intro eof tokens hhead
      obtain ⟨rest, rfl⟩ := List.head?_eq_some_iff.mp hhead
      rw [optional_of_kind eof hkind]

theorem local_terminated (make : Expr → Stmt) (fault : SyntaxFault) :
    Local [] (fun eof tokens => terminated eof make fault tokens) eof tokens := by
  apply (local_expression eof tokens).before
  intro value rest left
  exact local_expect.map

theorem local_variableDeclaration : Local [] variableDeclaration eof tokens := by
  apply local_expect.before
  intro name rest left
  apply Local.choose
  · intro equals after short _
    exact local_terminated eof _ _
  · intro _
    exact local_expect.map

theorem local_returned (insideFunction : Bool) (keyword : Token) :
    Local [] (fun eof tokens => returned eof insideFunction keyword tokens) eof tokens := by
  apply Local.noting fun _ _ _ _ => rfl
  apply (local_optional eof .semicolon).before
  intro value rest left
  exact local_expect.map

theorem local_condition {noOpening noClosing : SyntaxFault} :
    Local [] (fun eof tokens => condition eof noOpening noClosing tokens) eof tokens := by
  apply local_expect.before
  intro opening rest left
  apply (local_expression eof rest).before
  intro test rest left
  exact local_expect.map

theorem local_parameters (count : Nat) :
    Local [.comma] (fun eof tokens => parameters eof count tokens) eof tokens := by
  fun_induction parameters eof count tokens with
  | case1 count tokens ih =>
      apply Local.congr fun eof tokens => by rw [parameters]
      apply Local.noting excess_congr
      apply local_expect.andThen
      · intro _ kind hkind
        cases hkind
      · intro name rest left
        apply Local.accept
        · exact fun _ _ => id
        · intro comma after short _
          exact (ih rest left after short).map
        · intro _
          exact .done

theorem local_parameterList : Local [] parameterList eof tokens := by
  apply Local.choose
  · intro closing after short _
    exact .done
  · intro _
    apply (local_parameters eof 0).before
    intro names rest left
    exact local_expect.map

theorem local_signature : Local [] signature eof tokens := by
  apply local_expect.before
  intro name rest left
  apply local_expect.before
  intro paren rest left
  apply (local_parameterList eof).before
  intro names rest left
  exact local_expect.map

theorem local_initialClause : Local [] initialClause eof tokens := by
  apply Local.choose
  · intro semicolon after short _
    exact .done
  · intro _
    apply Local.choose
    · intro word after short _
      exact (local_variableDeclaration eof).map
    · intro _
      exact (local_terminated eof _ _).map

theorem local_clauses : Local [] clauses eof tokens := by
  apply local_expect.before
  intro opening rest left
  apply (local_initialClause eof).before
  intro initial rest left
  apply (local_optional eof .semicolon).before
  intro condition rest left
  apply local_expect.before
  intro semicolon rest left
  apply (local_optional eof .rightParen).before
  intro step rest left
  exact local_expect.map

/-! ## How statements are told apart -/

section

variable {insideFunction : Bool} {first : Token} {after : List Token}

theorem statement_for (h : first.kind = .keyword .for) :
    statement eof insideFunction (first :: after) =
      (countingLoop eof insideFunction after).afterToken := by
  rw [statement]
  simp only [h]

theorem statement_if (h : first.kind = .keyword .if) :
    statement eof insideFunction (first :: after) =
      (branch eof insideFunction after).afterToken := by
  rw [statement]
  simp only [h]

theorem statement_print (h : first.kind = .keyword .print) :
    statement eof insideFunction (first :: after) =
      (terminated eof .print .noSemicolonAfterValue after).afterToken := by
  rw [statement]
  simp only [h]

theorem statement_return (h : first.kind = .keyword .return) :
    statement eof insideFunction (first :: after) =
      (returned eof insideFunction first after).afterToken := by
  rw [statement]
  simp only [h]

theorem statement_while (h : first.kind = .keyword .while) :
    statement eof insideFunction (first :: after) = (loop eof insideFunction after).afterToken := by
  rw [statement]
  simp only [h]

theorem statement_block (h : first.kind = .leftBrace) :
    statement eof insideFunction (first :: after) =
      ((block eof insideFunction after).map .block).afterToken := by
  rw [statement]
  simp only [h]

theorem statement_expression (hfor : first.kind ≠ .keyword .for) (hif : first.kind ≠ .keyword .if)
    (hprint : first.kind ≠ .keyword .print) (hreturn : first.kind ≠ .keyword .return)
    (hwhile : first.kind ≠ .keyword .while) (hbrace : first.kind ≠ .leftBrace) :
    statement eof insideFunction (first :: after) =
      terminated eof .expression .noSemicolonAfterExpression (first :: after) := by
  rw [statement]
  split <;> first | contradiction | rfl

/-- A declaration before recovery from its fatal error. -/
def declared (insideFunction : Bool) (tokens : List Token) : Attempt true Stmt tokens :=
  match tokens with
  | [] => statement eof insideFunction []
  | first :: after =>
    match first.kind with
    | .keyword .fun => (function eof after).afterToken
    | .keyword .var => (variableDeclaration eof after).afterToken
    | _ => statement eof insideFunction (first :: after)

theorem declared_fun (h : first.kind = .keyword .fun) :
    declared eof insideFunction (first :: after) = (function eof after).afterToken := by
  rw [declared]
  simp only [h]

theorem declared_var (h : first.kind = .keyword .var) :
    declared eof insideFunction (first :: after) = (variableDeclaration eof after).afterToken := by
  rw [declared]
  simp only [h]

theorem declared_statement (hfun : first.kind ≠ .keyword .fun) (hvar : first.kind ≠ .keyword .var) :
    declared eof insideFunction (first :: after) =
      statement eof insideFunction (first :: after) := by
  rw [declared]
  split <;> first | contradiction | rfl

end

/-! ## Recovery -/

/-- What became of a declaration, without the proof that reading has advanced. -/
structure Recovery where
  /-- The statement, unless there was a fatal error. -/
  statement : Option Stmt
  /-- The tokens to go on with. -/
  rest : List Token
  /-- The errors found, fatal or not, in order. -/
  errors : List SyntaxError

/-- Recover from the fatal error of a result, if it has one. -/
def recovery : Result Stmt → Recovery
  | .read statement rest errors => ⟨some statement, rest, errors⟩
  | .gaveUp fatal rest errors => ⟨none, resume rest, errors ++ [fatal]⟩

/-- What becomes of the declaration that the tokens start with. -/
def firstDeclaration (eof : Token) (insideFunction : Bool) (tokens : List Token) : Recovery :=
  recovery (declared eof insideFunction tokens).result

variable {eof} {insideFunction : Bool} {first : Token} {after : List Token}

theorem firstDeclaration_eq {statement : Option Stmt} {rest : List Token}
    {errors : List SyntaxError} {shorter : rest.length < (first :: after).length}
    (h : declaration eof insideFunction first after = ⟨statement, rest, errors, shorter⟩) :
    firstDeclaration eof insideFunction (first :: after) = ⟨statement, rest, errors⟩ := by
  have heq : declaration eof insideFunction first after =
      (declared eof insideFunction (first :: after)).recovered := by
    rewrite [declaration, declared]
    rfl
  rw [heq] at h
  rw [firstDeclaration]
  revert h
  cases declared eof insideFunction (first :: after) with
  | ok value unread later left =>
      intro h
      cases h
      rfl
  | fail fatal unread later left =>
      intro h
      cases h
      rfl

theorem length_firstDeclaration_lt :
    (firstDeclaration eof insideFunction (first :: after)).rest.length <
      (first :: after).length := by
  rcases heq : declaration eof insideFunction first after with ⟨statement, rest, errors, shorter⟩
  rw [firstDeclaration_eq heq]
  exact shorter

theorem result_block_nil :
    (block eof insideFunction []).result = .gaveUp ⟨.noBraceAfterBlock, eof⟩ [] [] := by
  rw [block]
  rfl

theorem result_block_cons (hfirst : first.kind ≠ .rightBrace) :
    (block eof insideFunction (first :: after)).result =
      ((block eof insideFunction
        (firstDeclaration eof insideFunction (first :: after)).rest).result.map
          ((firstDeclaration eof insideFunction (first :: after)).statement.toList ++ ·)).noting
        (firstDeclaration eof insideFunction (first :: after)).errors := by
  rw [block, if_neg hfirst]
  rcases hdeclaration : declaration eof insideFunction first after with
    ⟨statement, rest, errors, shorter⟩
  rw [firstDeclaration_eq hdeclaration]
  simp only [result_widen, result_noting, result_map]

theorem declarations_eq_firstDeclaration : declarations eof (first :: after) =
    ((firstDeclaration eof false (first :: after)).statement.toList ++
        (declarations eof (firstDeclaration eof false (first :: after)).rest).1,
      (firstDeclaration eof false (first :: after)).errors ++
        (declarations eof (firstDeclaration eof false (first :: after)).rest).2) := by
  rw [declarations]
  rcases hdeclaration : declaration eof false first after with ⟨statement, rest, errors, shorter⟩
  rw [firstDeclaration_eq hdeclaration]

theorem resumesAt_congr {rest other : List Token} (h : rest.head? = other.head?) :
    resumesAt rest = resumesAt other := by
  cases rest <;> cases other <;> simp_all [resumesAt]

/-- Where dropping tokens stops it stops again, whatever comes after the next token. -/
theorem resume_again {next : Token} {rest : List Token} (h : resume tokens = next :: rest) :
    ∃ token dropped, tokens = token :: dropped ++ next :: rest ∧
      ∀ other, resume (token :: dropped ++ next :: other) = next :: other := by
  induction tokens with
  | nil => cases h
  | cons token tokens ih =>
      rw [resume] at h
      by_cases hstop : token.kind = .semicolon ∨ resumesAt tokens
      · rw [if_pos hstop] at h
        subst h
        exists token, [], rfl
        intro other
        have hsame : resumesAt (next :: other) = resumesAt (next :: rest) := resumesAt_congr rfl
        rw [List.singleton_append, resume, hsame, if_pos hstop]
      · rw [if_neg hstop] at h
        obtain ⟨second, dropped, rfl, hagain⟩ := ih h
        exists token, second :: dropped, rfl
        intro other
        have hsame : resumesAt (second :: dropped ++ next :: other) =
            resumesAt (second :: dropped ++ next :: rest) := resumesAt_congr rfl
        rw [List.cons_append, resume, hsame, if_neg hstop, hagain]

/-- What becomes of a declaration is decided by the tokens up to where reading goes on and
by the next one. -/
theorem firstDeclaration_again
    (h : Local [.keyword .else] (fun eof tokens => declared eof insideFunction tokens) eof tokens)
    {next : Token} {rest : List Token}
    (hrest : (firstDeclaration eof insideFunction tokens).rest = next :: rest) :
    ∃ used, tokens = used ++ next :: rest ∧ ∀ eof' other,
      firstDeclaration eof' insideFunction (used ++ next :: other) =
        { firstDeclaration eof insideFunction tokens with rest := next :: other } := by
  rw [firstDeclaration] at hrest ⊢
  cases hresult : (declared eof insideFunction tokens).result with
  | read value unread errors =>
      rw [hresult] at hrest
      obtain rfl : unread = next :: rest := hrest
      obtain ⟨used, hused, hagain⟩ := h.read hresult
      exists used, hused
      intro eof' other
      rw [firstDeclaration, hagain eof' (next :: other) (.inl rfl)]
      rfl
  | gaveUp fatal unread errors =>
      rw [hresult] at hrest
      obtain ⟨token, dropped, rfl, hresume⟩ := resume_again hrest
      obtain ⟨used, hused, _, hagain⟩ := h.gaveUp hresult
      refine ⟨used ++ token :: dropped, by rw [hused, List.append_assoc], ?_⟩
      intro eof' other
      rw [List.append_assoc, List.cons_append, firstDeclaration, hagain token _ rfl, recovery,
        ← List.cons_append, hresume]
      rfl

/-- Tokens start as they did if all is replaced behind some token. -/
theorem exists_tail {front rest : List Token} {next : Token}
    (h : first :: after = front ++ next :: rest) (other : List Token) :
    ∃ tail, front ++ next :: other = first :: tail := by
  cases front with
  | nil =>
      cases h
      exact ⟨other, rfl⟩
  | cons token front =>
      cases h
      exact ⟨_, rfl⟩

/-! ## Statements and declarations -/

/-- A block goes on where its first declaration ends, or where recovery from it ends. -/
theorem local_block_cons (hfirst : first.kind ≠ .rightBrace)
    (hdeclared : Local [.keyword .else] (fun eof tokens => declared eof insideFunction tokens) eof
      (first :: after))
    (hblock : Local [] (fun eof tokens => block eof insideFunction tokens) eof
      (firstDeclaration eof insideFunction (first :: after)).rest) :
    Local [] (fun eof tokens => block eof insideFunction tokens) eof (first :: after) := by
  have hresult := @result_block_cons eof insideFunction first after hfirst
  cases hrest : (firstDeclaration eof insideFunction (first :: after)).rest with
  | nil =>
      rw [hrest, result_block_nil] at hresult
      exact .of_gaveUp hresult (first :: after) (List.append_nil _).symm (.inl rfl)
        fun next after hnil => nomatch hnil
  | cons next more =>
      obtain ⟨used, hused, hagain⟩ := firstDeclaration_again hdeclared hrest
      -- the block goes on likewise before any tokens that start with the next one
      have hthen (eof' : Token) (other : List Token) :
          (block eof' insideFunction (used ++ next :: other)).result =
            ((block eof' insideFunction (next :: other)).result.map
              ((firstDeclaration eof insideFunction (first :: after)).statement.toList ++ ·)).noting
              (firstDeclaration eof insideFunction (first :: after)).errors := by
        obtain ⟨tail, htail⟩ := exists_tail hused other
        rw [htail, result_block_cons hfirst, ← htail, hagain eof' other]
      rw [hrest] at hblock hresult
      cases hinner : (block eof insideFunction (next :: more)).result with
      | read body unread errors =>
          obtain ⟨inside, hinside, hread⟩ := hblock.read hinner
          obtain ⟨inside, rfl⟩ : ∃ others, inside = next :: others := by
            rcases List.cons_eq_append_iff.mp hinside with ⟨hnil, _⟩ | ⟨others, hothers, _⟩
            · exact absurd hnil (ne_nil_of_read hinner hinside)
            · exact ⟨others, hothers⟩
          apply Local.of_read (by rw [hresult, hinner]; rfl) (used ++ next :: inside)
            (by rw [hused, hinside, List.append_assoc])
          intro eof' other hother
          rw [List.append_assoc, List.cons_append, hthen, ← List.cons_append,
            hread eof' other hother]
          rfl
      | gaveUp fatal unread errors =>
          obtain ⟨inside, hinside, hlocated, hstop⟩ := hblock.gaveUp hinner
          apply Local.of_gaveUp (by rw [hresult, hinner]; rfl) (used ++ inside)
            (by rw [hused, hinside, List.append_assoc]) (hlocated.append _)
          rintro token rest rfl eof' other
          obtain ⟨tail, htail⟩ := exists_tail hinside other
          rw [List.append_assoc, htail, hthen, ← htail, hstop token rest rfl eof' other]
          rfl

/-- The rules for statements are local. -/
theorem local_statementRules :
    (∀ insideFunction first after, Local [.keyword .else]
      (fun eof tokens => declared eof insideFunction tokens) eof (first :: after)) ∧
    (∀ insideFunction tokens, Local [.keyword .else]
      (fun eof tokens => statement eof insideFunction tokens) eof tokens) ∧
    (∀ insideFunction tokens, Local []
      (fun eof tokens => block eof insideFunction tokens) eof tokens) ∧
    (∀ insideFunction tokens, Local [.keyword .else]
      (fun eof tokens => loop eof insideFunction tokens) eof tokens) ∧
    (∀ insideFunction tokens, Local [.keyword .else]
      (fun eof tokens => branch eof insideFunction tokens) eof tokens) ∧
    (∀ insideFunction tokens, Local [.keyword .else]
      (fun eof tokens => countingLoop eof insideFunction tokens) eof tokens) ∧
    (∀ tokens, Local [] function eof tokens) := by
  have hclosed {α : Type} {rule : Token → (tokens : List Token) → Attempt true α tokens}
      {tokens : List Token} (h : Local [] rule eof tokens) :
      Local [.keyword .else] rule eof tokens := h.mono fun _ hkind => nomatch hkind
  refine declaration.mutual_induct eof _ _ _ _ _ _ _ ?declaration ?atEnd ?counting ?branching
    ?printing ?returning ?looping ?brace ?expression ?blockAtEnd ?blockEnd ?blockMore ?loop ?branch
    ?countingLoop ?function
  case declaration =>
    intro insideFunction first after ihfunction ihstatement
    by_cases hfun : first.kind = .keyword .fun
    · exact (hclosed ihfunction).cons fun eof tokens => declared_fun eof hfun
    by_cases hvar : first.kind = .keyword .var
    · exact (hclosed (local_variableDeclaration eof)).cons fun eof tokens => declared_var eof hvar
    exact ihstatement.of_head fun eof tokens => declared_statement eof hfun hvar
  case atEnd =>
    intro insideFunction
    apply (local_terminated eof .expression .noSemicolonAfterExpression).at_end
    rw [statement]
  case counting =>
    intro insideFunction word after hword ih
    exact ih.cons fun eof tokens => statement_for eof hword
  case branching =>
    intro insideFunction word after hword ih
    exact ih.cons fun eof tokens => statement_if eof hword
  case printing =>
    intro insideFunction word after hword
    have hterminated := hclosed (@local_terminated eof after .print .noSemicolonAfterValue)
    exact hterminated.cons fun eof tokens => statement_print eof hword
  case returning =>
    intro insideFunction word after hword
    have hreturned := hclosed (@local_returned eof after insideFunction word)
    exact hreturned.cons fun eof tokens => statement_return eof hword
  case looping =>
    intro insideFunction word after hword ih
    exact ih.cons fun eof tokens => statement_while eof hword
  case brace =>
    intro insideFunction opening after hopening ih
    have hblock := hclosed (ih.map (f := Stmt.block))
    exact hblock.cons fun eof tokens => statement_block eof hopening
  case expression =>
    intro insideFunction first after hfor hif hprint hreturn hwhile hbrace
    have hterminated := hclosed
      (@local_terminated eof (first :: after) .expression .noSemicolonAfterExpression)
    exact hterminated.of_head fun eof tokens =>
      statement_expression eof hfor hif hprint hreturn hwhile hbrace
  case blockAtEnd =>
    intro insideFunction
    exact .giveUp_end result_block_nil
  case blockEnd =>
    intro insideFunction closing after hclosing
    apply Local.single []
    intro eof after
    rw [block, if_pos hclosing]
    rfl
  case blockMore =>
    intro insideFunction first after hfirst statement rest errors shorter heq ihfirst ihrest
    apply local_block_cons hfirst ihfirst
    rw [firstDeclaration_eq heq]
    exact ihrest
  case loop =>
    intro insideFunction tokens ihbody
    apply Local.congr fun eof tokens => by rw [loop]
    apply (local_condition eof).before
    intro test rest left
    exact (ihbody rest left).map
  case branch =>
    intro insideFunction tokens ihconsequent ihalternative
    apply Local.congr fun eof tokens => by rw [branch]
    apply (local_condition eof).before
    intro test rest left
    apply (ihconsequent rest left).andThen
    · exact fun _ _ => id
    · intro consequent unread within
      apply Local.accept
      · exact fun _ _ => id
      · intro other after short _
        exact (ihalternative rest left unread within after short).map
      · intro _
        exact .done
  case countingLoop =>
    intro insideFunction tokens ihbody
    apply Local.congr fun eof tokens => by rw [countingLoop]
    apply (local_clauses eof).before
    intro parts rest left
    exact (ihbody rest left).map
  case function =>
    intro tokens ihbody
    apply Local.congr fun eof tokens => by rw [function]
    apply (local_signature eof).before
    rintro ⟨name, names⟩ rest left
    exact (ihbody rest left).map

/-- A declaration before recovery is local. -/
theorem local_declared : Local [.keyword .else]
    (fun eof tokens => declared eof insideFunction tokens) eof (first :: after) :=
  local_statementRules.1 insideFunction first after

end Grammar

end LoxLang
