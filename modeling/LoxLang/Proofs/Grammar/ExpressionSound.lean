/-
# Expressions that are read derive

Whatever a rule for expressions reads off the front of the tokens is derived by the
grammar, and the value it makes of them is the tree of the derivation.

The rules call each other, so all of them are shown sound at once, by the induction
they are defined by. The loops continue a phrase that was read before them; what
they read is stated after such a phrase.
-/

import LoxLang.Proofs.Grammar.Attempt

namespace LoxLang

open Attempt

namespace Grammar

variable (eof : Token) {reading : Reading}

/-! ## Expressions -/

/-- The operators of a level and the node they make, as the rules have them. -/
def Level.tier (level : Level) : Tier :=
  ⟨level.operators, level.node⟩

/-- The tiers that a rule of the grammar is read with. -/
inductive ReadBy : Rule → List Tier → Prop
  | unary : ReadBy .unary []
  | chain {level : Level} {tighter : List Tier} :
      ReadBy level.operand tighter → ReadBy (.chain level) (level.tier :: tighter)

theorem readBy_tiers : ReadBy (.chain .disjunction) tiers :=
  .chain (.chain (.chain (.chain (.chain (.chain .unary)))))

theorem lt_of_excess {fault : SyntaxFault} {count : Nat} {tokens : List Token}
    (h : excess eof fault count tokens = []) : count < 255 := by
  unfold excess maxArity at h
  split at h
  · cases h
  · omega

theorem Level.node_ne_variable (level : Level) {left right : Expr} {operator name : Token} :
    level.node left operator right ≠ .variable name := by
  cases level <;> intro h <;> cases h

/-- A bare name is derived from its token alone, by every rule. -/
theorem Phrase.of_variable {name : Token} : ∀ {rule : Rule} {tokens : List Token} {value : Expr},
    Phrase reading rule tokens value → value = .variable name →
      tokens = [name] ∧ name.kind = .identifier
  | _, _, _, .assign _ _ _, heq => by cases heq
  | _, _, _, .misassign _ _ hbare _ _, heq => absurd heq (hbare name)
  | _, _, _, .unassigned h, heq => h.of_variable heq
  | _, _, _, .join _ _ _, heq => absurd heq (Level.node_ne_variable _)
  | _, _, _, .single h, heq => h.of_variable heq
  | _, _, _, .signed _ _, heq => by cases heq
  | _, _, _, .unsigned h, heq => h.of_variable heq
  | _, _, _, .callBare _ _ _, heq => by cases heq
  | _, _, _, .callWith _ _ _ _ _, heq => by cases heq
  | _, _, _, .uncalled h, heq => h.of_variable heq
  | _, _, _, .false _, heq => by cases heq
  | _, _, _, .true _, heq => by cases heq
  | _, _, _, .nil _, heq => by cases heq
  | _, _, _, .constant _ _, heq => by cases heq
  | _, _, _, .name hkind, heq => by
      cases heq
      exact ⟨rfl, hkind⟩
  | _, _, _, .grouping _ _ _, heq => by cases heq

/-- What is made of an assignment that has been read is derived as one. A target
that is no bare name is noted, so the reading must be relaxed. -/
theorem sound_assigned {tokens : List Token} (target value : Expr) (equals : Token) :
    (assigned target equals value : Attempt false Expr tokens).Sound reading fun used result _ =>
      ∀ before after, Phrase reading (.chain .disjunction) before target →
        equals.kind = .equal → Phrase reading .assignment after value →
        Phrase reading .assignment (before ++ equals :: after ++ used) result := by
  unfold assigned
  split
  next name =>
    apply sound_done
    intro before after htarget hequals hvalue
    obtain ⟨rfl, hname⟩ := htarget.of_variable rfl
    simpa using Phrase.assign hname hequals hvalue
  next hbare =>
    apply Sound.noting
    apply sound_done
    intro hadmits before after htarget hequals hvalue
    have hrelaxed : reading = .relaxed := by
      cases reading with
      | strict => cases hadmits
      | relaxed => rfl
    simpa using Phrase.misassign hrelaxed htarget (fun name => hbare name) hequals hvalue

/-- What the rules for expressions read is derived. -/
theorem sound_rules :
    (∀ tokens, (expression eof tokens).Sound reading fun used value _ =>
      Phrase reading .assignment used value) ∧
    (∀ levels tokens, ∀ rule, ReadBy rule levels →
      (chain eof levels tokens).Sound reading fun used value _ => Phrase reading rule used value) ∧
    (∀ tier tighter left tokens, ∀ level : Level, tier = level.tier →
      ReadBy level.operand tighter →
      (operands eof tier tighter left tokens).Sound reading fun used value _ =>
        ∀ before, Phrase reading (.chain level) before left →
          Phrase reading (.chain level) (before ++ used) value) ∧
    (∀ tokens, (unary eof tokens).Sound reading fun used value _ =>
      Phrase reading .unary used value) ∧
    (∀ tokens, (application eof tokens).Sound reading fun used value _ =>
      Phrase reading .call used value) ∧
    (∀ callee tokens, (calls eof callee tokens).Sound reading fun used value _ =>
      ∀ before, Phrase reading .call before callee →
        Phrase reading .call (before ++ used) value) ∧
    (∀ callee tokens, (callOf eof callee tokens).Sound reading fun used value _ =>
      ∀ before opening, Phrase reading .call before callee → opening.kind = .leftParen →
        Phrase reading .call (before ++ opening :: used) value) ∧
    (∀ count tokens, (arguments eof count tokens).Sound reading fun used values _ =>
      Arguments reading used values ∧ (reading = .strict → count + values.length ≤ 255)) ∧
    (∀ tokens, (primary eof tokens).Sound reading fun used value _ =>
      Phrase reading .primary used value) := by
  refine expression.mutual_induct _ _ _ _ _ _ _ _ _ ?expression ?innermost ?tier ?operands
    ?unary ?application ?calls ?callOf ?arguments ?atEnd ?false ?true ?nil ?number ?badNumber
    ?string ?badString ?name ?grouping ?other
  case expression =>
    intro tokens ihchain ihvalue
    rw [expression]
    apply (ihchain _ readBy_tiers).andThen
    intro target rest left
    apply sound_accept
    · intro equals after short hequals _
      apply (ihvalue rest left after short).andThen
      intro value unread _
      apply (sound_assigned target value equals).mono
      intro more result _ h used hvalue before htarget
      simpa using h before used htarget (List.mem_singleton.mp hequals) hvalue
    · intro _
      apply sound_done
      intro before htarget
      simpa using Phrase.unassigned htarget
  case innermost =>
    intro tokens ih rule hrule
    cases hrule
    rw [chain]
    exact ih
  case tier =>
    intro tokens tier tighter ihleft ihrest rule hrule
    cases hrule with
    | chain hoperand =>
        rw [chain]
        apply (ihleft _ hoperand).andThen
        intro value rest left
        apply (ihrest value rest left _ rfl hoperand).mono
        intro used result unread h before hleft
        exact h before (.single hleft)
  case operands =>
    intro tier tighter left tokens ihright ihrest level htier hoperand
    subst htier
    rw [operands]
    apply sound_accept
    · intro operator after short hoperator _
      apply (ihright after short _ hoperand).andThen
      intro right rest hshort
      apply (ihrest operator after short right rest hshort level rfl hoperand).mono
      intro more result unread h used hright before hleft
      simpa using h _ (.join hleft hoperator hright)
    · intro _
      apply sound_done
      intro before hleft
      simpa using hleft
  case unary =>
    intro tokens ihoperand ihcall
    rw [unary]
    apply sound_accept
    · intro operator after short hoperator _
      apply Sound.map
      apply (ihoperand after short).mono
      intro used value rest hoperand
      refine .signed ?_ hoperand
      simpa [unaryOperators] using hoperator
    · intro _
      apply ihcall.mono
      intro used value rest h
      exact .unsigned h
  case application =>
    intro tokens ihcallee ihcalls
    rw [application]
    apply ihcallee.andThen
    intro callee rest left
    apply (ihcalls callee rest left).mono
    intro more value unread h used hcallee
    exact h used (.uncalled hcallee)
  case calls =>
    intro callee tokens ihcall ihmore
    rw [calls]
    apply sound_accept
    · intro opening after short hopening _
      apply (ihcall after short).andThen
      intro call rest left
      apply (ihmore after short call rest left).mono
      intro more value unread h used hcall before hcallee
      simpa using h _ (hcall before opening hcallee (List.mem_singleton.mp hopening))
    · intro _
      apply sound_done
      intro before hcallee
      simpa using hcallee
  case callOf =>
    intro callee tokens iharguments
    rw [callOf]
    apply sound_accept
    · intro closing after short hclosing _
      apply sound_done
      intro before opening hcallee hopening
      exact .callBare hcallee hopening (List.mem_singleton.mp hclosing)
    · intro _
      apply iharguments.andThen
      intro values rest left
      apply sound_expect_map eof rfl
      rintro closing unread hclosing used ⟨hvalues, hbound⟩ before opening hcallee hopening
      refine .callWith hcallee hopening hvalues (fun hstrict => ?_) hclosing
      simpa using hbound hstrict
  case arguments =>
    intro count tokens ihfirst ihothers
    rw [arguments]
    apply Sound.noting
    apply ihfirst.andThen
    intro value rest left
    apply sound_accept
    · intro comma after short hcomma _
      apply Sound.map
      apply (ihothers rest left after short).mono
      rintro more values unread ⟨hvalues, hbound⟩ used hvalue _
      refine ⟨.more hvalue (List.mem_singleton.mp hcomma) hvalues, fun hstrict => ?_⟩
      have := hbound hstrict
      simp only [List.length_cons]
      omega
    · intro _
      apply sound_done
      intro used hvalue hadmits
      refine ⟨by simpa using Arguments.last hvalue, fun hstrict => ?_⟩
      have := lt_of_excess eof (Reading.eq_nil_of_admits hadmits hstrict)
      simp only [List.length_cons, List.length_nil]
      omega
  case atEnd =>
    rw [primary]
    rfl
  case false =>
    intro token after hkind
    rw [primary]
    simp only [hkind]
    exact (sound_done (.false hkind)).afterToken
  case true =>
    intro token after hkind
    rw [primary]
    simp only [hkind]
    exact (sound_done (.true hkind)).afterToken
  case nil =>
    intro token after hkind
    rw [primary]
    simp only [hkind]
    exact (sound_done (.nil hkind)).afterToken
  case number =>
    intro token after hkind payload hpayload
    rw [primary]
    simp only [hkind, hpayload]
    exact (sound_done (.constant (.inl hkind) hpayload)).afterToken
  case badNumber =>
    intro token after hkind hpayload
    rw [primary]
    simp only [hkind, hpayload]
    rfl
  case string =>
    intro token after hkind payload hpayload
    rw [primary]
    simp only [hkind, hpayload]
    exact (sound_done (.constant (.inr hkind) hpayload)).afterToken
  case badString =>
    intro token after hkind hpayload
    rw [primary]
    simp only [hkind, hpayload]
    rfl
  case name =>
    intro token after hkind
    rw [primary]
    simp only [hkind]
    exact (sound_done (.name hkind)).afterToken
  case grouping =>
    intro opening after hopening ih
    rw [primary]
    simp only [hopening]
    apply Sound.afterToken
    apply ih.andThen
    intro inner rest left
    apply sound_expect_map eof rfl
    intro closing unread hclosing used hinner
    exact .grouping hopening hinner hclosing
  case other =>
    intro token after hfalse htrue hnil hnumber hstring hidentifier hparen
    rw [primary]
    split <;> first | contradiction | rfl

/-- An expression that is read is derived. -/
theorem sound_expression (tokens : List Token) :
    (expression eof tokens).Sound reading fun used value _ =>
      Phrase reading .assignment used value :=
  (sound_rules eof).1 tokens

end Grammar

end LoxLang
