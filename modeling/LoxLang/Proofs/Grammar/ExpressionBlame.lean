/-
# What is blamed in expressions

If a rule for expressions finds a fatal error, then what it has read before the token to
blame begins a phrase of the rule. A phrase that is missing can be a constant, and one
that was left open is closed by a parenthesis.

The loops continue a phrase that was read before them, so what they have read begins a
phrase after such a one.
-/

import LoxLang.Proofs.Grammar.Blame
import LoxLang.Proofs.Grammar.ExpressionLocality

namespace LoxLang

open Attempt

namespace Grammar

variable {eof : Token} {reading : Reading} {tokens : List Token} {value : Expr}

/-! ## How phrases are completed -/

/-- A token of which nothing but the kind matters. -/
def bare (kind : TokenKind) : Token :=
  ⟨kind, "", none, 0⟩

theorem Phrase.of_primary (h : Phrase reading .primary tokens value) (rule : Rule) :
    Phrase reading rule tokens value := by
  have hunary : Phrase reading .unary tokens value := .unsigned (.uncalled h)
  have hterm : Phrase reading (.chain .term) tokens value := .single (.single hunary)
  have hequality : Phrase reading (.chain .equality) tokens value := .single (.single hterm)
  have hdisjunction : Phrase reading (.chain .disjunction) tokens value :=
    .single (.single hequality)
  cases rule with
  | assignment => exact .unassigned hdisjunction
  | chain level =>
      cases level with
      | disjunction => exact hdisjunction
      | conjunction => exact .single hequality
      | equality => exact hequality
      | comparison => exact .single hterm
      | term => exact hterm
      | factor => exact .single hunary
  | unary => exact hunary
  | call => exact .uncalled h
  | primary => exact h

/-- Where nothing was read yet, any phrase can follow. -/
theorem begins_phrase (rule : Rule) : Begins (Phrase .relaxed rule) [] :=
  ⟨[bare (.keyword .nil)], _, Phrase.of_primary (.nil rfl) rule⟩

variable {before : List Token} {opening : Token} {callee : Expr}

theorem begins_callWith {inside : List Token} {values : List Expr}
    (hcallee : Phrase .relaxed .call before callee) (hopening : opening.kind = .leftParen)
    (hvalues : Arguments .relaxed inside values) :
    Begins (Phrase .relaxed .call) (before ++ opening :: inside) := by
  refine ⟨[bare .rightParen], .call callee (bare .rightParen) values, ?_⟩
  rw [List.append_assoc, List.cons_append]
  exact .callWith hcallee hopening hvalues (fun hstrict => nomatch hstrict) rfl

theorem begins_grouping (hopening : opening.kind = .leftParen)
    (hinner : Phrase .relaxed .assignment tokens value) :
    Begins (Phrase .relaxed .primary) (opening :: tokens) :=
  ⟨[bare .rightParen], _, .grouping hopening hinner rfl⟩

theorem begins_assigned {equals : Token} {target : Expr}
    (htarget : Phrase .relaxed (.chain .disjunction) before target) (hequals : equals.kind = .equal)
    (hvalue : Phrase .relaxed .assignment tokens value) :
    Begins (Phrase .relaxed .assignment) (before ++ equals :: tokens) := by
  by_cases hname : ∃ name, target = .variable name
  · obtain ⟨name, rfl⟩ := hname
    obtain ⟨rfl, hkind⟩ := htarget.of_variable rfl
    exact .of_phrase (.assign hkind hequals hvalue)
  · exact .of_phrase
      (.misassign rfl htarget (fun name heq => hname ⟨name, heq⟩) hequals hvalue)

/-! ## The rules -/

theorem admits_assigned (target value : Expr) (equals : Token) :
    Reading.relaxed.Admits
      (assigned target equals value : Attempt false Expr tokens).result.errors := by
  cases target with
  | «variable» name => exact Reading.admits_nil
  | _ => exact Reading.admits_singleton rfl fun hstrict => nomatch hstrict

theorem blames_malformed {token : Token} (hkind : token.kind = .number ∨ token.kind = .string)
    (hpayload : token.payload = none) :
    Blames (Begins (Phrase .relaxed .primary)) (reportOf primary) eof (token :: tokens) := by
  apply Blames.at_token .malformedLiteral (begins_phrase .primary)
  intro eof other
  rw [reportOf, result_malformed hkind hpayload]
  rfl

/-- What the rules for expressions blame. -/
theorem blames_rules :
    (∀ tokens, Blames (Begins (Phrase .relaxed .assignment)) (reportOf expression) eof tokens) ∧
    (∀ levels tokens, ∀ rule, ReadBy rule levels → Blames (Begins (Phrase .relaxed rule))
      (reportOf fun eof tokens => chain eof levels tokens) eof tokens) ∧
    (∀ tier tighter left tokens, ∀ level : Level, tier = level.tier →
      ReadBy level.operand tighter →
      Blames (fun used => ∀ before, Phrase .relaxed (.chain level) before left →
          Begins (Phrase .relaxed (.chain level)) (before ++ used))
        (reportOf fun eof tokens => operands eof tier tighter left tokens) eof tokens) ∧
    (∀ tokens, Blames (Begins (Phrase .relaxed .unary)) (reportOf unary) eof tokens) ∧
    (∀ tokens, Blames (Begins (Phrase .relaxed .call)) (reportOf application) eof tokens) ∧
    (∀ callee tokens, Blames (fun used => ∀ before, Phrase .relaxed .call before callee →
        Begins (Phrase .relaxed .call) (before ++ used))
      (reportOf fun eof tokens => calls eof callee tokens) eof tokens) ∧
    (∀ callee tokens, Blames (fun used => ∀ before opening, Phrase .relaxed .call before callee →
        opening.kind = .leftParen → Begins (Phrase .relaxed .call) (before ++ opening :: used))
      (reportOf fun eof tokens => callOf eof callee tokens) eof tokens) ∧
    (∀ count tokens, Blames (Begins (Arguments .relaxed))
      (reportOf fun eof tokens => arguments eof count tokens) eof tokens) ∧
    (∀ tokens, Blames (Begins (Phrase .relaxed .primary)) (reportOf primary) eof tokens) := by
  refine expression.mutual_induct _ _ _ _ _ _ _ _ _ ?expression ?innermost ?tier ?operands
    ?unary ?application ?calls ?callOf ?arguments ?atEnd ?false ?true ?nil ?number ?badNumber
    ?string ?badString ?name ?grouping ?other
  case expression =>
    intro tokens ihchain ihvalue
    apply Blames.of_eq fun eof tokens => by rw [expression]
    apply (ihchain _ readBy_tiers).andThen ((local_rules eof).2.1 tiers tokens)
      ((sound_rules eof).2.1 tiers tokens _ readBy_tiers)
    · intro used h
      exact h.within [] fun tokens value hvalue => .of_phrase (.unassigned hvalue)
    · intro target rest left
      apply Blames.accept
      · intro equals after short hequals _
        apply (ihvalue rest left after short).andThen (local_expression eof after)
          (sound_expression eof after)
        · intro used h before htarget
          have hvalue := h.within (before ++ [equals]) fun tokens value hvalue => by
            simpa using begins_assigned htarget (List.mem_singleton.mp hequals) hvalue
          simpa using hvalue
        · intro value unread _
          exact .of_admits (admits_assigned target value equals)
      · intro _
        exact .done
  case innermost =>
    intro tokens ih rule hrule
    cases hrule
    exact ih.of_eq fun eof tokens => by rw [chain]
  case tier =>
    intro tokens tier tighter ihleft ihrest rule hrule
    cases hrule with
    | chain hoperand =>
        apply Blames.of_eq fun eof tokens => by rw [chain]
        apply (ihleft _ hoperand).andThen ((local_rules eof).2.1 tighter tokens)
          ((sound_rules eof).2.1 tighter tokens _ hoperand)
        · intro used h
          exact h.within [] fun tokens value hvalue => .of_phrase (.single hvalue)
        · intro value rest left
          apply (ihrest value rest left _ rfl hoperand).mono
          intro more h used hvalue
          exact h used (.single hvalue)
  case operands =>
    intro tier tighter left tokens ihright ihrest level htier hoperand
    subst htier
    apply Blames.of_eq fun eof tokens => by rw [operands]
    apply Blames.accept
    · intro operator after short hoperator _
      apply (ihright after short _ hoperand).andThen ((local_rules eof).2.1 tighter after)
        ((sound_rules eof).2.1 tighter after _ hoperand)
      · intro used h before hleft
        have hright := h.within (Q := Phrase .relaxed (.chain level)) (before ++ [operator])
          fun tokens value hvalue => .of_phrase (by simpa using .join hleft hoperator hvalue)
        simpa using hright
      · intro right rest hshort
        apply (ihrest operator after short right rest hshort level rfl hoperand).mono
        intro more h used hright before hleft
        simpa using h _ (.join hleft hoperator hright)
    · intro _
      exact .done
  case unary =>
    intro tokens ihoperand ihcall
    apply Blames.of_eq fun eof tokens => by rw [unary]
    apply Blames.accept
    · intro operator after short hoperator _
      apply (ihoperand after short).map.mono
      intro used h
      apply h.within [operator]
      intro tokens value hvalue
      have hsign : operator.kind = .bang ∨ operator.kind = .minus := by
        simpa [unaryOperators] using hoperator
      exact .of_phrase (.signed hsign hvalue)
    · intro _
      apply ihcall.mono
      intro used h
      exact h.within [] fun tokens value hvalue => .of_phrase (.unsigned hvalue)
  case application =>
    intro tokens ihcallee ihcalls
    apply Blames.of_eq fun eof tokens => by rw [application]
    apply ihcallee.andThen ((local_rules eof).2.2.2.2.2.2.2.2 tokens)
      ((sound_rules eof).2.2.2.2.2.2.2.2 tokens)
    · intro used h
      exact h.within [] fun tokens value hvalue => .of_phrase (.uncalled hvalue)
    · intro callee rest left
      apply (ihcalls callee rest left).mono
      intro more h used hcallee
      exact h used (.uncalled hcallee)
  case calls =>
    intro callee tokens ihcall ihmore
    apply Blames.of_eq fun eof tokens => by rw [calls]
    apply Blames.accept
    · intro opening after short hopening _
      have hparen := List.mem_singleton.mp hopening
      apply (ihcall after short).andThen ((local_rules eof).2.2.2.2.2.2.1 callee after)
        ((sound_rules eof).2.2.2.2.2.2.1 callee after)
      · intro used h before hcallee
        exact h before opening hcallee hparen
      · intro call rest left
        apply (ihmore after short call rest left).mono
        intro more h used hcall before hcallee
        simpa using h _ (hcall before opening hcallee hparen)
    · intro _
      exact .done
  case callOf =>
    intro callee tokens iharguments
    apply Blames.of_eq fun eof tokens => by rw [callOf]
    apply Blames.accept
    · intro closing after short _ _
      exact .done
    · intro _
      apply iharguments.andThen ((local_rules eof).2.2.2.2.2.2.2.1 0 tokens)
        ((sound_rules eof).2.2.2.2.2.2.2.1 0 tokens)
      · intro used h before opening hcallee hopening
        have hvalues := h.within (before ++ [opening]) fun tokens values hvalues => by
          simpa using begins_callWith hcallee hopening hvalues
        simpa using hvalues
      · intro values rest left
        apply blames_expect_map rfl
        rintro used ⟨hvalues, _⟩ before opening hcallee hopening
        simpa using begins_callWith hcallee hopening hvalues
  case arguments =>
    intro count tokens ihfirst ihothers
    apply Blames.of_eq fun eof tokens => by rw [arguments]
    apply Blames.noting fun eof tokens => admits_excess eof rfl (by simp)
    apply ihfirst.andThen (local_expression eof tokens) (sound_expression eof tokens)
    · intro used h
      exact h.within [] fun tokens value hvalue => .of_phrase (.last hvalue)
    · intro value rest left
      apply Blames.accept
      · intro comma after short hcomma _
        apply (ihothers rest left after short).map.mono
        intro used h before hvalue
        have hothers := h.within (Q := Arguments .relaxed) (before ++ [comma])
          fun tokens values hvalues => .of_phrase
            (by simpa using .more hvalue (List.mem_singleton.mp hcomma) hvalues)
        simpa using hothers
      · intro _
        exact .done
  case atEnd =>
    apply Blames.at_end .noExpression (begins_phrase .primary)
    rw [reportOf, primary]
    rfl
  case false =>
    intro token after hkind
    exact .of_read (result_primary (.false hkind) eof after)
  case true =>
    intro token after hkind
    exact .of_read (result_primary (.true hkind) eof after)
  case nil =>
    intro token after hkind
    exact .of_read (result_primary (.nil hkind) eof after)
  case number =>
    intro token after hkind payload hpayload
    exact .of_read (result_primary (.constant (.inl hkind) hpayload) eof after)
  case badNumber =>
    intro token after hkind hpayload
    exact blames_malformed (.inl hkind) hpayload
  case string =>
    intro token after hkind payload hpayload
    exact .of_read (result_primary (.constant (.inr hkind) hpayload) eof after)
  case badString =>
    intro token after hkind hpayload
    exact blames_malformed (.inr hkind) hpayload
  case name =>
    intro token after hkind
    exact .of_read (result_primary (.name hkind) eof after)
  case grouping =>
    intro opening after hopening ih
    have hinner : Blames (fun used => Begins (Phrase .relaxed .primary) (opening :: used))
        (reportOf fun eof tokens => (expression eof tokens).andThen fun inner rest _ =>
          (expect eof .rightParen .noParenAfterExpression rest).map fun _ => Expr.grouping inner)
        eof after := by
      apply ih.andThen (local_expression eof after) (sound_expression eof after)
      · intro used h
        exact h.within [opening] fun tokens value hvalue => begins_grouping hopening hvalue
      · intro inner rest left
        apply blames_expect_map rfl
        intro used hvalue
        simpa using begins_grouping hopening hvalue
    exact hinner.cons fun eof tokens => primary_grouping eof hopening
  case other =>
    intro token after hfalse htrue hnil hnumber hstring hidentifier hparen
    apply Blames.at_token .noExpression (begins_phrase .primary)
    intro eof other
    rw [reportOf, primary]
    split <;> first | contradiction | rfl

theorem blames_expression (tokens : List Token) :
    Blames (Begins (Phrase .relaxed .assignment)) (reportOf expression) eof tokens :=
  blames_rules.1 tokens

end Grammar

end LoxLang
