/-
# Expressions that derive are read

A rule for expressions reads back any phrase that the grammar derives, unless what
follows could go on with it: an operator of its own tier or a tighter one, or an
opening parenthesis.

Chains and calls are derived from the left but read by loops. What is shown for them
is that reading the phrase brings the loop to where the phrase ends, with the tree
of the phrase; how the loop ends is then a matter of what follows.
-/

import LoxLang.Proofs.Grammar.ExpressionSound

namespace LoxLang

open Attempt

namespace Grammar

variable (eof : Token) {reading : Reading}

/-- The kinds of token that can go on with a phrase read with the given tiers. -/
def continuations (levels : List Tier) : List TokenKind :=
  .leftParen :: levels.flatMap Tier.operators

/-- The tiers that the operands of a chain are read with. -/
def Level.tighter : Level → List Tier
  | .disjunction => tiers.drop 1
  | .conjunction => tiers.drop 2
  | .equality => tiers.drop 3
  | .comparison => tiers.drop 4
  | .term => tiers.drop 5
  | .factor => []

theorem readBy_tighter (level : Level) : ReadBy level.operand level.tighter := by
  have hterm : ReadBy (.chain .factor) Level.term.tighter := .chain .unary
  have hcomparison : ReadBy (.chain .term) Level.comparison.tighter := .chain hterm
  have hequality : ReadBy (.chain .comparison) Level.equality.tighter := .chain hcomparison
  have hconjunction : ReadBy (.chain .equality) Level.conjunction.tighter := .chain hequality
  cases level with
  | disjunction => exact .chain hconjunction
  | conjunction => exact hconjunction
  | equality => exact hequality
  | comparison => exact hcomparison
  | term => exact hterm
  | factor => exact .unary

theorem ReadBy.unique {rule : Rule} {levels others : List Tier} (h : ReadBy rule levels)
    (hothers : ReadBy rule others) : levels = others := by
  induction h generalizing others with
  | unary =>
      cases hothers
      rfl
  | chain _ ih =>
      cases hothers with
      | chain hoperand => rw [ih hoperand]

/-- An operator of a chain cannot go on with an operand of it. -/
theorem not_mem_continuations {level : Level} {tighter : List Tier}
    (hread : ReadBy level.operand tighter) {kind : TokenKind} (hkind : kind ∈ level.operators) :
    kind ∉ continuations tighter := by
  rw [hread.unique (readBy_tighter level)]
  revert kind
  cases level <;> decide

/-- The rule reads the expression off the tokens, whatever follows them that cannot
go on with it. -/
def ReadsBack (reading : Reading) : Rule → List Token → Expr → Prop
  | .assignment, tokens, value =>
    ∀ rest, NoneAhead (.equal :: continuations tiers) rest →
      (expression eof (tokens ++ rest)).Yields reading value rest
  | .chain level, tokens, value =>
    ∀ tighter, ReadBy level.operand tighter → ∀ rest, NoneAhead (continuations tighter) rest →
      ∀ result unread, (operands eof level.tier tighter value rest).Yields reading result unread →
        (chain eof (level.tier :: tighter) (tokens ++ rest)).Yields reading result unread
  | .unary, tokens, value =>
    ∀ rest, NoneAhead (continuations []) rest →
      (unary eof (tokens ++ rest)).Yields reading value rest
  | .call, tokens, value =>
    ∀ rest result unread, (calls eof value rest).Yields reading result unread →
      (application eof (tokens ++ rest)).Yields reading result unread
  | .primary, tokens, value =>
    ∀ rest, (primary eof (tokens ++ rest)).Yields reading value rest

variable {rule : Rule} {tokens rest : List Token} {value : Expr}

theorem mem_continuations_cons {tier : Tier} {tighter : List Tier} {kind : TokenKind} :
    kind ∈ continuations (tier :: tighter) ↔
      kind ∈ tier.operators ∨ kind ∈ continuations tighter := by
  simp only [continuations, List.flatMap_cons, List.mem_cons, List.mem_append]
  exact or_left_comm

/-- An operand ends before whatever is neither an operator of the chain it stands in
nor could go on with it. -/
theorem ReadsBack.chain (h : ReadsBack eof reading rule tokens value) {levels : List Tier}
    (hread : ReadBy rule levels) (hahead : NoneAhead (continuations levels) rest) :
    (Grammar.chain eof levels (tokens ++ rest)).Yields reading value rest := by
  cases hread with
  | unary =>
      rw [Grammar.chain]
      exact h rest hahead
  | chain hoperand =>
      apply h _ hoperand rest
      · exact hahead.mono fun kind hkind => mem_continuations_cons.mpr (.inr hkind)
      · rw [operands]
        apply yields_accept_of_noneAhead _ yields_done
        exact hahead.mono fun kind hkind => mem_continuations_cons.mpr (.inl hkind)

theorem admits_excess {fault : SyntaxFault} {count : Nat} (hfault : fault.isFatal = false)
    (hcount : reading = .strict → count < 255) : reading.Admits (excess eof fault count tokens) := by
  unfold excess maxArity
  split
  next hexcess =>
    apply Reading.admits_singleton hfault
    intro hstrict
    have := hcount hstrict
    omega
  next => exact Reading.admits_nil

/-! ## How phrases start -/

/-- The kinds of token that a primary can start with. -/
def primaryStarters : List TokenKind :=
  [.keyword .false, .keyword .true, .keyword .nil, .number, .string, .identifier, .leftParen]

/-- The kinds of token that a phrase of the rule can start with. -/
def Rule.starters : Rule → List TokenKind
  | .call | .primary => primaryStarters
  | _ => primaryStarters ++ unaryOperators

theorem Level.starters_operand (level : Level) :
    level.operand.starters = Rule.assignment.starters := by
  cases level <;> rfl

theorem Phrase.exists_start {rule : Rule} {tokens : List Token} {value : Expr}
    (h : Phrase reading rule tokens value) :
    ∃ first others, tokens = first :: others ∧ first.kind ∈ rule.starters := by
  -- arguments come after a callee, so nothing is asked of them
  induction h using @Phrase.rec reading _ (fun _ _ _ => True) with
  | assign hname => exact ⟨_, _, rfl, by simp [hname, Rule.starters, primaryStarters]⟩
  | misassign _ _ _ _ _ ih =>
      obtain ⟨first, others, rfl, hfirst⟩ := ih
      exact ⟨first, _, rfl, hfirst⟩
  | unassigned _ ih => exact ih
  | join _ _ _ ih =>
      obtain ⟨first, others, rfl, hfirst⟩ := ih
      exact ⟨first, _, rfl, hfirst⟩
  | single _ ih =>
      obtain ⟨first, others, rfl, hfirst⟩ := ih
      rw [Level.starters_operand] at hfirst
      exact ⟨first, _, rfl, hfirst⟩
  | signed hoperator =>
      refine ⟨_, _, rfl, List.mem_append_right _ ?_⟩
      simpa [unaryOperators] using hoperator
  | unsigned _ ih =>
      obtain ⟨first, others, rfl, hfirst⟩ := ih
      exact ⟨first, _, rfl, List.mem_append_left unaryOperators hfirst⟩
  | callBare _ _ _ ih =>
      obtain ⟨first, others, rfl, hfirst⟩ := ih
      exact ⟨first, _, rfl, hfirst⟩
  | callWith _ _ _ _ _ ih =>
      obtain ⟨first, others, rfl, hfirst⟩ := ih
      exact ⟨first, _, rfl, hfirst⟩
  | uncalled _ ih => exact ih
  | false hkind => exact ⟨_, _, rfl, by simp [hkind, Rule.starters, primaryStarters]⟩
  | true hkind => exact ⟨_, _, rfl, by simp [hkind, Rule.starters, primaryStarters]⟩
  | nil hkind => exact ⟨_, _, rfl, by simp [hkind, Rule.starters, primaryStarters]⟩
  | constant hkind =>
      refine ⟨_, _, rfl, ?_⟩
      rcases hkind with h | h <;> simp [h, Rule.starters, primaryStarters]
  | name hkind => exact ⟨_, _, rfl, by simp [hkind, Rule.starters, primaryStarters]⟩
  | grouping hopening =>
      exact ⟨_, _, rfl, by simp [hopening, Rule.starters, primaryStarters]⟩
  | last => trivial
  | more => trivial

/-- Nothing that cannot start a phrase is ahead of one. -/
theorem Phrase.noneAhead (h : Phrase reading rule tokens value) {kinds : List TokenKind}
    (hkinds : ∀ kind ∈ rule.starters, kind ∉ kinds) : NoneAhead kinds (tokens ++ rest) := by
  obtain ⟨first, others, rfl, hfirst⟩ := h.exists_start
  exact noneAhead_cons.mpr (hkinds _ hfirst)

theorem Arguments.noneAhead {values : List Expr} (h : Arguments reading tokens values) :
    NoneAhead [.rightParen] (tokens ++ rest) := by
  cases h with
  | last h => exact h.noneAhead (by decide)
  | more h _ _ =>
      rw [List.append_assoc]
      exact h.noneAhead (by decide)

/-! ## One production at a time -/

namespace ReadsBack

variable {eof} {before after : List Token} {target : Expr} {opening closing operator equals : Token}

theorem name {name : Token} (hkind : name.kind = .identifier) :
    ReadsBack eof reading .primary [name] (.variable name) := by
  intro rest
  rw [List.singleton_append, primary]
  simp only [hkind]
  exact yields_done.afterToken

theorem uncalled (h : ReadsBack eof reading .primary tokens value) :
    ReadsBack eof reading .call tokens value := by
  intro rest result unread hcalls
  rw [application]
  exact (h rest).andThen fun _ => hcalls

/-- A call is read as an operand, if no unary operator was meant to be read there. -/
theorem unsigned (hstart : ∀ rest, NoneAhead unaryOperators (tokens ++ rest))
    (h : ReadsBack eof reading .call tokens value) :
    ReadsBack eof reading .unary tokens value := by
  intro rest hahead
  rw [unary]
  apply yields_accept_of_noneAhead (hstart rest)
  apply h rest
  rw [calls]
  exact yields_accept_of_noneAhead hahead yields_done

theorem signed (hoperator : operator.kind = .bang ∨ operator.kind = .minus)
    (h : ReadsBack eof reading .unary tokens value) :
    ReadsBack eof reading .unary (operator :: tokens) (.unary operator value) := by
  intro rest hahead
  rw [List.cons_append, unary]
  apply yields_accept
  · simpa [unaryOperators] using hoperator
  · intro _
    exact (h rest hahead).map _

theorem single {level : Level} (h : ReadsBack eof reading level.operand tokens value) :
    ReadsBack eof reading (.chain level) tokens value := by
  intro tighter hread rest hahead result unread hoperands
  rw [Grammar.chain]
  exact (h.chain eof hread hahead).andThen fun _ => hoperands

theorem join {level : Level} {left right : Expr}
    (hleft : ReadsBack eof reading (.chain level) before left)
    (hoperator : operator.kind ∈ level.operators)
    (hright : ReadsBack eof reading level.operand after right) :
    ReadsBack eof reading (.chain level) (before ++ operator :: after)
      (level.node left operator right) := by
  intro tighter hread rest hahead result unread hoperands
  rw [List.append_assoc, List.cons_append]
  apply hleft tighter hread
  · exact noneAhead_cons.mpr (not_mem_continuations hread hoperator)
  · rw [operands]
    apply yields_accept hoperator
    intro _
    exact (hright.chain eof hread hahead).andThen fun _ => hoperands

theorem unassigned (h : ReadsBack eof reading (.chain .disjunction) tokens value) :
    ReadsBack eof reading .assignment tokens value := by
  intro rest hahead
  rw [expression]
  apply (h.chain eof readBy_tiers (hahead.mono fun kind => List.mem_cons_of_mem _)).andThen
  intro left
  apply yields_accept_of_noneAhead _ yields_done
  exact hahead.mono fun kind hkind => List.mem_singleton.mp hkind ▸ List.mem_cons_self

/-- A target is read before an equals sign, and the value after it. -/
theorem expression_of_target {result : Expr}
    (htarget : ReadsBack eof reading (.chain .disjunction) before target)
    (hequals : equals.kind = .equal) (hvalue : ReadsBack eof reading .assignment after value)
    (hassigned : ∀ {rest : List Token},
      (assigned target equals value : Attempt false Expr rest).Yields reading result rest) :
    ReadsBack eof reading .assignment (before ++ equals :: after) result := by
  intro rest hahead
  rw [List.append_assoc, List.cons_append, expression]
  apply (htarget.chain eof readBy_tiers ?_).andThen
  · intro left
    apply yields_accept (List.mem_singleton.mpr hequals)
    intro _
    exact (hvalue rest hahead).andThen fun _ => hassigned
  · exact noneAhead_of_kind hequals (by decide)

theorem assign {name : Token} (hname : name.kind = .identifier) (hequals : equals.kind = .equal)
    (hvalue : ReadsBack eof reading .assignment tokens value) :
    ReadsBack eof reading .assignment (name :: equals :: tokens) (.assign name value) := by
  have hoperand : ReadsBack eof reading .unary [name] (.variable name) := by
    refine (ReadsBack.name hname).uncalled.unsigned fun rest => ?_
    rw [List.singleton_append]
    exact noneAhead_of_kind hname (by decide)
  have htarget : ReadsBack eof reading (.chain .disjunction) [name] (.variable name) :=
    single (single (single (single (single (single hoperand)))))
  exact htarget.expression_of_target hequals hvalue yields_done

theorem misassign (hrelaxed : reading = .relaxed)
    (htarget : ReadsBack eof reading (.chain .disjunction) before target)
    (hbare : ∀ name, target ≠ .variable name) (hequals : equals.kind = .equal)
    (hvalue : ReadsBack eof reading .assignment after value) :
    ReadsBack eof reading .assignment (before ++ equals :: after) target := by
  apply htarget.expression_of_target hequals hvalue
  intro rest
  unfold assigned
  split
  next name => exact absurd rfl (hbare name)
  next =>
    apply yields_done.noting
    apply Reading.admits_singleton rfl
    rw [hrelaxed]
    simp

/-- A call is read if its argument list is. -/
theorem called {call : Expr} (hcallee : ReadsBack eof reading .call before value)
    (hopening : opening.kind = .leftParen)
    (hcall : ∀ rest, (callOf eof value (after ++ rest)).Yields reading call rest) :
    ReadsBack eof reading .call (before ++ opening :: after) call := by
  intro rest result unread hcalls
  rw [List.append_assoc, List.cons_append]
  apply hcallee
  rw [calls]
  apply yields_accept (List.mem_singleton.mpr hopening)
  intro _
  exact (hcall rest).andThen fun _ => hcalls

theorem callBare (hcallee : ReadsBack eof reading .call before value)
    (hopening : opening.kind = .leftParen) (hclosing : closing.kind = .rightParen) :
    ReadsBack eof reading .call (before ++ [opening, closing]) (.call value closing []) := by
  apply hcallee.called hopening
  intro rest
  rw [List.singleton_append, callOf]
  exact yields_accept (List.mem_singleton.mpr hclosing) fun _ => yields_done

theorem callWith {values : List Expr} (hcallee : ReadsBack eof reading .call before value)
    (hopening : opening.kind = .leftParen) (hclosing : closing.kind = .rightParen)
    (hstart : ∀ rest, NoneAhead [.rightParen] (tokens ++ rest))
    (hvalues : ∀ rest, (arguments eof 0 (tokens ++ closing :: rest)).Yields reading values
      (closing :: rest)) :
    ReadsBack eof reading .call (before ++ opening :: (tokens ++ [closing]))
      (.call value closing values) := by
  apply hcallee.called hopening
  intro rest
  rw [List.append_assoc, List.singleton_append, callOf]
  apply yields_accept_of_noneAhead (hstart _)
  exact (hvalues rest).andThen fun _ => (yields_expect eof hclosing).map _

theorem constant {token : Token} {payload : Payload}
    (hkind : token.kind = .number ∨ token.kind = .string) (hpayload : token.payload = some payload) :
    ReadsBack eof reading .primary [token] (.literal payload.literal) := by
  intro rest
  rw [List.singleton_append, primary]
  rcases hkind with hkind | hkind <;> simp only [hkind, hpayload] <;> exact yields_done.afterToken

theorem grouping (hopening : opening.kind = .leftParen)
    (hinner : ReadsBack eof reading .assignment tokens value)
    (hclosing : closing.kind = .rightParen) :
    ReadsBack eof reading .primary (opening :: (tokens ++ [closing])) (.grouping value) := by
  intro rest
  rw [List.cons_append, List.append_assoc, List.singleton_append, primary]
  simp only [hopening]
  apply Yields.afterToken
  apply (hinner (closing :: rest) ?_).andThen
  · intro left
    exact (yields_expect eof hclosing).map _
  · exact noneAhead_of_kind hclosing (by decide)

end ReadsBack

/-! ## Whole phrases -/

mutual

/-- Every phrase that is derived is read back. -/
theorem Phrase.readsBack : ∀ {rule : Rule} {tokens : List Token} {value : Expr},
    Phrase reading rule tokens value → ReadsBack eof reading rule tokens value
  | _, _, _, .assign hname hequals hvalue => .assign hname hequals hvalue.readsBack
  | _, _, _, .misassign hrelaxed htarget hbare hequals hvalue =>
      .misassign hrelaxed htarget.readsBack hbare hequals hvalue.readsBack
  | _, _, _, .unassigned h => h.readsBack.unassigned
  | _, _, _, .join hleft hoperator hright => hleft.readsBack.join hoperator hright.readsBack
  | _, _, _, .single h => .single h.readsBack
  | _, _, _, .signed hoperator h => .signed hoperator h.readsBack
  | _, _, _, .unsigned h =>
      h.readsBack.unsigned fun _ => h.noneAhead (by decide)
  | _, _, _, .callBare hcallee hopening hclosing => hcallee.readsBack.callBare hopening hclosing
  | _, _, _, .callWith hcallee hopening hvalues hbound hclosing => by
      refine hcallee.readsBack.callWith hopening hclosing (fun _ => hvalues.noneAhead) fun rest => ?_
      apply hvalues.yields
      · simpa using hbound
      · exact hclosing
  | _, _, _, .uncalled h => h.readsBack.uncalled
  | _, _, _, .false hkind => by
      intro rest
      rw [List.singleton_append, primary]
      simp only [hkind]
      exact yields_done.afterToken
  | _, _, _, .true hkind => by
      intro rest
      rw [List.singleton_append, primary]
      simp only [hkind]
      exact yields_done.afterToken
  | _, _, _, .nil hkind => by
      intro rest
      rw [List.singleton_append, primary]
      simp only [hkind]
      exact yields_done.afterToken
  | _, _, _, .constant hkind hpayload => .constant hkind hpayload
  | _, _, _, .name hkind => .name hkind
  | _, _, _, .grouping hopening hinner hclosing => .grouping hopening hinner.readsBack hclosing

/-- Arguments that are derived are read back before a closing parenthesis. -/
theorem Arguments.yields : ∀ {tokens : List Token} {values : List Expr},
    Arguments reading tokens values → ∀ {count : Nat} {closing : Token} {rest : List Token},
      (reading = .strict → count + values.length ≤ 255) → closing.kind = .rightParen →
      (arguments eof count (tokens ++ closing :: rest)).Yields reading values (closing :: rest)
  | _, _, .last h, count, closing, rest, hbound, hclosing => by
      rw [arguments]
      refine Yields.noting ?_ (admits_excess eof rfl hbound)
      apply (h.readsBack (closing :: rest) ?_).andThen
      · intro left
        apply yields_accept_of_noneAhead _ yields_done
        exact noneAhead_of_kind hclosing (by decide)
      · exact noneAhead_of_kind hclosing (by decide)
  | _, _, @Arguments.more _ _ others comma _ _ h hcomma hothers, count, closing, rest, hbound,
      hclosing => by
      rw [arguments, List.append_assoc, List.cons_append]
      refine Yields.noting ?_ (admits_excess eof rfl fun hstrict => ?_)
      · apply (h.readsBack (comma :: (others ++ closing :: rest)) ?_).andThen
        · intro left
          apply yields_accept (List.mem_singleton.mpr hcomma)
          intro _
          refine (hothers.yields (fun hstrict => ?_) hclosing).map _
          have := hbound hstrict
          simp only [List.length_cons] at this
          omega
        · exact noneAhead_of_kind hcomma (by decide)
      · have := hbound hstrict
        simp only [List.length_cons] at this
        omega

end

end Grammar

end LoxLang
