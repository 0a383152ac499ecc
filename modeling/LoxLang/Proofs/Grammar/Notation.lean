/-
# What is written is read back

The strengths by which an expression is written are those of the grammar. A rule derives what
binds at least as strongly as it asks, and nothing weaker: where an expression is too weak to
stand it needs its parentheses, and with them it stands everywhere.

So the tokens that an expression is written with derive it, up to the groupings that come of
the parentheses. This is so of all tokens that stand for the same, hence of those that any
text of them is scanned as. An expression that is written down is therefore read back.
-/

import LoxLang.Proofs.Tree.Notation

namespace LoxLang

open Notation Spelling

namespace Grammar

variable {reading : Reading} {rule : Rule} {tokens before after : List Token} {value : Expr}
  {given asked : Nat}

/-! ## Strengths and rules -/

/-- How strongly the operators of a chain bind. -/
def Level.strength : Level → Nat
  | .disjunction => 1
  | .conjunction => 2
  | .equality => 3
  | .comparison => 4
  | .term => 5
  | .factor => 6

/-- How strongly an expression must bind for the rule to derive it. -/
def Rule.strength : Rule → Nat
  | .assignment => 0
  | .chain level => level.strength
  | .unary => 7
  | .call => 8
  | .primary => 9

/-- The rule that derives what binds at least so strongly. -/
def Rule.ofStrength : Nat → Rule
  | 0 => .assignment
  | 1 => .chain .disjunction
  | 2 => .chain .conjunction
  | 3 => .chain .equality
  | 4 => .chain .comparison
  | 5 => .chain .term
  | 6 => .chain .factor
  | 7 => .unary
  | 8 => .call
  | _ => .primary

theorem Level.strength_of_mem {level : Level} {kind : TokenKind} (h : kind ∈ level.operators) :
    kind.strength = level.strength := by
  revert kind
  cases level <;> decide

theorem Level.strength_operand (level : Level) : level.operand.strength = level.strength + 1 := by
  cases level <;> rfl

theorem Level.strength_node {level : Level} {left right : Expr} {operator : Token}
    (h : operator.kind ∈ level.operators) :
    (level.node left operator right).strength = level.strength := by
  rw [← strength_of_mem h]
  cases level <;> rfl

theorem Rule.ofStrength_chain (level : Level) : ofStrength level.strength = .chain level := by
  cases level <;> rfl

theorem Rule.ofStrength_operand (level : Level) :
    ofStrength (level.strength + 1) = level.operand := by
  cases level <;> rfl

/-- Where more strength is asked than an expression has, no tokens derive it. -/
theorem Phrase.strength_le (h : Phrase reading rule tokens value) :
    rule.strength ≤ value.strength := by
  -- what an expression holds is asked for by the rules, so nothing is asked of arguments
  induction h using @Phrase.rec reading _ (fun _ _ _ => True) with
  | assign | misassign | unassigned => exact Nat.zero_le _
  | join _ hoperator _ => exact Nat.le_of_eq (Level.strength_node hoperator).symm
  | @single level _ _ _ ih =>
      rw [level.strength_operand] at ih
      exact Nat.le_of_succ_le ih
  | unsigned _ ih | uncalled _ ih => exact Nat.le_of_succ_le ih
  | last | more => trivial
  | _ => exact Nat.le_refl _

/-- What binds more strongly than a rule asks is derived by it. -/
theorem Phrase.looser (h : Phrase reading (.ofStrength (given + 1)) tokens value) :
    Phrase reading (.ofStrength given) tokens value := by
  rcases given with _ | _ | _ | _ | _ | _ | _ | _ | _ | given
  · exact .unassigned h
  · exact .single h
  · exact .single h
  · exact .single h
  · exact .single h
  · exact .single h
  · exact .single h
  · exact .unsigned h
  · exact .uncalled h
  · exact h

theorem Phrase.of_le (hle : asked ≤ given)
    (h : Phrase reading (.ofStrength given) tokens value) :
    Phrase reading (.ofStrength asked) tokens value := by
  induction hle with
  | refl => exact h
  | step _ ih => exact ih h.looser

end Grammar

/-! ## Tokens that stand for the same -/

namespace Token

variable {token other : Token}

theorem kind_of_sense (h : other.sense = token.sense) : other.kind = token.kind := by
  have hkind := congrArg kind h
  exact hkind

theorem payload_of_sense (h : other.sense = token.sense) : other.payload = token.payload := by
  have hpayload := congrArg payload h
  exact hpayload

/-- A token without a value stands for its text. -/
theorem renumber_of_sense (h : other.sense = token.sense) (hnone : token.payload = none) :
    other.renumber (fun _ => 0) = token.renumber fun _ => 0 := by
  have hpayload := payload_of_sense h
  obtain ⟨kind, lexeme, payload, line⟩ := token
  obtain ⟨_, _, _, _⟩ := other
  cases hnone
  cases hpayload
  cases h
  rfl

theorem Genuine.payload_eq_none (h : token.Genuine) (hstring : token.kind ≠ .string)
    (hnumber : token.kind ≠ .number) : token.payload = none :=
  h.carries.eq_payloadOf.trans (payloadOf_eq_none hstring hnumber)

theorem exists_of_sense_cons {read tokens : List Token}
    (h : read.map sense = (token :: tokens).map sense) :
    ∃ first others, read = first :: others ∧ first.sense = token.sense ∧
      others.map sense = tokens.map sense :=
  List.map_eq_cons_iff.mp h

theorem exists_of_sense_append {read before after : List Token}
    (h : read.map sense = (before ++ after).map sense) :
    ∃ front back, read = front ++ back ∧ front.map sense = before.map sense ∧
      back.map sense = after.map sense := by
  rw [List.map_append] at h
  exact List.map_eq_append_iff.mp h

end Token

namespace Grammar

open Token

variable {tokens before after : List Token} {node callee : Expr} {arguments : List Expr}
  {given asked : Nat} {operator name : Token}

/-- All tokens that stand for the same as these derive the expression, up to what is stripped,
where so much strength is asked. -/
def Reads (asked : Nat) (tokens : List Token) (node : Expr) : Prop :=
  ∀ read : List Token, read.map sense = tokens.map sense → ∃ tree,
    Phrase .strict (.ofStrength asked) read tree ∧ tree.stripped = node.stripped

/-- They derive the arguments, up to what is stripped. -/
def ReadsArguments (tokens : List Token) (arguments : List Expr) : Prop :=
  ∀ read : List Token, read.map sense = tokens.map sense → ∃ trees,
    Arguments .strict read trees ∧ Expr.strippedEach trees = Expr.strippedEach arguments

namespace Reads

theorem of_le (h : Reads given tokens node) (hle : asked ≤ given) :
    Reads asked tokens node := by
  intro read hread
  obtain ⟨tree, hphrase, hstripped⟩ := h read hread
  exact ⟨tree, hphrase.of_le hle, hstripped⟩

/-- In parentheses an expression can stand anywhere. -/
theorem parenthesised (h : Reads 0 tokens node) :
    Reads 9 (opening :: (tokens ++ [closing])) node := by
  intro read hread
  obtain ⟨first, _, rfl, hfirst, hread⟩ := exists_of_sense_cons hread
  obtain ⟨inside, _, rfl, hinside, hread⟩ := exists_of_sense_append hread
  obtain ⟨last, _, rfl, hlast, hread⟩ := exists_of_sense_cons hread
  obtain rfl := List.map_eq_nil_iff.mp hread
  obtain ⟨tree, hphrase, hstripped⟩ := h inside hinside
  exact ⟨.grouping tree, .grouping (kind_of_sense hfirst) hphrase (kind_of_sense hlast), hstripped⟩

/-- It can stand where it needs no parentheses, and it has them where it does. -/
theorem enclosed (h : Reads node.strength tokens node) (hasked : asked ≤ 9) :
    Reads asked (enclosed asked node.strength tokens) node := by
  unfold Notation.enclosed
  split
  next => exact (h.of_le (Nat.zero_le _)).parenthesised.of_le hasked
  next hstrong => exact h.of_le (Nat.le_of_not_lt hstrong)

theorem literal (value : Literal) : Reads 9 [value.token] (.literal value) := by
  intro read hread
  obtain ⟨first, _, rfl, hfirst, hread⟩ := exists_of_sense_cons hread
  obtain rfl := List.map_eq_nil_iff.mp hread
  have hkind := kind_of_sense hfirst
  refine ⟨.literal value, ?_, rfl⟩
  cases value with
  | nil => exact .nil hkind
  | bool value =>
      cases value with
      | false => exact .false hkind
      | true => exact .true hkind
  | number value => exact .constant (.inl hkind) (payload_of_sense hfirst)
  | string contents => exact .constant (.inr hkind) (payload_of_sense hfirst)

theorem «variable» (hkind : name.kind = .identifier) (hnone : name.payload = none) :
    Reads 9 [name] (.variable name) := by
  intro read hread
  obtain ⟨first, _, rfl, hfirst, hread⟩ := exists_of_sense_cons hread
  obtain rfl := List.map_eq_nil_iff.mp hread
  exact ⟨.variable first, .name ((kind_of_sense hfirst).trans hkind),
    congrArg Expr.variable (renumber_of_sense hfirst hnone)⟩

theorem assign (hkind : name.kind = .identifier) (hnone : name.payload = none)
    (h : Reads 0 tokens node) : Reads 0 (name :: equals :: tokens) (.assign name node) := by
  intro read hread
  obtain ⟨first, _, rfl, hfirst, hread⟩ := exists_of_sense_cons hread
  obtain ⟨second, others, rfl, hsecond, hread⟩ := exists_of_sense_cons hread
  obtain ⟨tree, hphrase, hstripped⟩ := h others hread
  refine ⟨.assign first tree,
    .assign ((kind_of_sense hfirst).trans hkind) (kind_of_sense hsecond) hphrase, ?_⟩
  rw [Expr.stripped, Expr.stripped, hstripped, renumber_of_sense hfirst hnone]

theorem unary (hkind : operator.kind = .bang ∨ operator.kind = .minus)
    (hnone : operator.payload = none) (h : Reads 7 tokens node) :
    Reads 7 (operator :: tokens) (.unary operator node) := by
  intro read hread
  obtain ⟨first, others, rfl, hfirst, hread⟩ := exists_of_sense_cons hread
  obtain ⟨tree, hphrase, hstripped⟩ := h others hread
  rw [← kind_of_sense hfirst] at hkind
  refine ⟨.unary first tree, .signed hkind hphrase, ?_⟩
  rw [Expr.stripped, Expr.stripped, hstripped, renumber_of_sense hfirst hnone]

theorem stripped_node (level : Level) (left right : Expr) (operator : Token) :
    (level.node left operator right).stripped =
      level.node left.stripped (operator.renumber fun _ => 0) right.stripped := by
  cases level <;> rfl

/-- A chain is read from the left, so the operand on the right must bind more strongly. -/
theorem join {level : Level} {left right : Expr} (hkind : operator.kind ∈ level.operators)
    (hnone : operator.payload = none) (hleft : Reads level.strength before left)
    (hright : Reads (level.strength + 1) after right) :
    Reads level.strength (before ++ operator :: after) (level.node left operator right) := by
  rw [Reads, Rule.ofStrength_chain] at hleft ⊢
  rw [Reads, Rule.ofStrength_operand] at hright
  intro read hread
  obtain ⟨front, _, rfl, hfront, hread⟩ := exists_of_sense_append hread
  obtain ⟨middle, back, rfl, hmiddle, hback⟩ := exists_of_sense_cons hread
  obtain ⟨first, hfirst, hfirstStripped⟩ := hleft front hfront
  obtain ⟨second, hsecond, hsecondStripped⟩ := hright back hback
  rw [← kind_of_sense hmiddle] at hkind
  refine ⟨level.node first middle second, .join hfirst hkind hsecond, ?_⟩
  rw [stripped_node, stripped_node, hfirstStripped, hsecondStripped,
    renumber_of_sense hmiddle hnone]

end Reads

theorem length_strippedEach (nodes : List Expr) :
    (Expr.strippedEach nodes).length = nodes.length := by
  induction nodes with
  | nil => rfl
  | cons first others ih => rw [Expr.strippedEach, List.length_cons, List.length_cons, ih]

/-- Arguments are read if each of them is, however weakly it binds. -/
theorem readsArguments (hnil : arguments ≠ [])
    (h : ∀ argument ∈ arguments, Reads 0 argument.tokens argument) :
    ReadsArguments (Expr.tokensOfArguments arguments) arguments := by
  induction arguments with
  | nil => exact absurd rfl hnil
  | cons first others ih =>
      obtain ⟨hfirst, hothers⟩ := List.forall_mem_cons.mp h
      cases others with
      | nil =>
          intro read hread
          obtain ⟨tree, hphrase, hstripped⟩ := hfirst read hread
          refine ⟨[tree], .last hphrase, ?_⟩
          simp only [Expr.strippedEach, hstripped]
      | cons next others =>
          intro read hread
          rw [Expr.tokensOfArguments] at hread
          obtain ⟨front, _, rfl, hfront, hread⟩ := exists_of_sense_append hread
          obtain ⟨middle, back, rfl, hmiddle, hback⟩ := exists_of_sense_cons hread
          obtain ⟨tree, hphrase, hstripped⟩ := hfirst front hfront
          obtain ⟨trees, harguments, hstrippedEach⟩ := ih (by simp) hothers back hback
          refine ⟨tree :: trees, .more hphrase (kind_of_sense hmiddle) harguments, ?_⟩
          rw [Expr.strippedEach, Expr.strippedEach, hstripped, hstrippedEach]

namespace Reads

theorem call {paren : Token} (hcallee : Reads 8 before callee)
    (harguments : ∀ argument ∈ arguments, Reads 0 argument.tokens argument)
    (hlength : arguments.length ≤ 255) :
    Reads 8 (before ++ opening :: (Expr.tokensOfArguments arguments ++ [closing]))
      (.call callee paren arguments) := by
  intro read hread
  obtain ⟨front, _, rfl, hfront, hread⟩ := exists_of_sense_append hread
  obtain ⟨first, _, rfl, hfirst, hread⟩ := exists_of_sense_cons hread
  obtain ⟨inside, _, rfl, hinside, hread⟩ := exists_of_sense_append hread
  obtain ⟨last, _, rfl, hlast, hread⟩ := exists_of_sense_cons hread
  obtain rfl := List.map_eq_nil_iff.mp hread
  obtain ⟨tree, hphrase, hstripped⟩ := hcallee front hfront
  have hopening := kind_of_sense hfirst
  have hclosing := kind_of_sense hlast
  by_cases hnil : arguments = []
  · subst hnil
    obtain rfl := List.map_eq_nil_iff.mp hinside
    refine ⟨.call tree last [], .callBare hphrase hopening hclosing, ?_⟩
    rw [Expr.stripped, Expr.stripped, hstripped]
  · obtain ⟨trees, hderived, hstrippedEach⟩ := readsArguments hnil harguments inside hinside
    have hlengths := congrArg List.length hstrippedEach
    rw [length_strippedEach, length_strippedEach] at hlengths
    refine ⟨.call tree last trees,
      .callWith hphrase hopening hderived (fun _ => hlengths ▸ hlength) hclosing, ?_⟩
    rw [Expr.stripped, Expr.stripped, hstripped, hstrippedEach]

/-- Operands that are as strong as their operator asks are joined by it. -/
theorem operands {level : Level} {left right : Expr} (hkind : operator.kind ∈ level.operators)
    (hnone : operator.payload = none) (hleft : Reads left.strength left.tokens left)
    (hright : Reads right.strength right.tokens right) :
    Reads (level.node left operator right).strength (level.node left operator right).tokens
      (level.node left operator right) := by
  have hle : level.strength + 1 ≤ 9 := by cases level <;> decide
  have htokens : (level.node left operator right).tokens =
      Notation.enclosed level.strength left.strength left.tokens ++
        operator :: Notation.enclosed (level.strength + 1) right.strength right.tokens := by
    rw [← Level.strength_of_mem hkind]
    cases level <;> rfl
  rw [Level.strength_node hkind, htokens]
  exact join hkind hnone (hleft.enclosed (Nat.le_of_succ_le hle)) (hright.enclosed hle)

end Reads

/-- Every binary operator joins the operands of some chain. -/
theorem exists_level_of_binary {kind : TokenKind} (h : kind ∈ binaryOperators) :
    ∃ level : Level, kind ∈ level.operators ∧ level.node = .binary := by
  have hlevels : kind ∈ Level.equality.operators ∨ kind ∈ Level.comparison.operators ∨
      kind ∈ Level.term.operators ∨ kind ∈ Level.factor.operators := by
    revert kind
    decide
  rcases hlevels with hkind | hkind | hkind | hkind
  · exact ⟨.equality, hkind, rfl⟩
  · exact ⟨.comparison, hkind, rfl⟩
  · exact ⟨.term, hkind, rfl⟩
  · exact ⟨.factor, hkind, rfl⟩

theorem exists_level_of_logical {kind : TokenKind}
    (h : kind = .keyword .and ∨ kind = .keyword .or) :
    ∃ level : Level, kind ∈ level.operators ∧ level.node = .logical := by
  rcases h with rfl | rfl
  · exact ⟨.conjunction, by decide, rfl⟩
  · exact ⟨.disjunction, by decide, rfl⟩

end Grammar

open Grammar

/-- The tokens of an expression are read as the expression. -/
theorem Expr.Plain.reads {node : Expr} (h : node.Plain) :
    Reads node.strength node.tokens node := by
  induction h with
  | @literal value _ => exact .literal value
  | «variable» hkind hname =>
      exact .variable hkind (hname.payload_eq_none (by simp [hkind]) (by simp [hkind]))
  | assign hkind hname _ ih =>
      exact .assign hkind (hname.payload_eq_none (by simp [hkind]) (by simp [hkind]))
        (ih.of_le (Nat.zero_le _))
  | unary hkind hoperator _ ih =>
      have hnone := hoperator.payload_eq_none (by rcases hkind with h | h <;> simp [h])
        (by rcases hkind with h | h <;> simp [h])
      exact .unary hkind hnone (ih.enclosed (by decide))
  | binary hkind hoperator _ _ hleft hright =>
      obtain ⟨level, hlevel, hnode⟩ := exists_level_of_binary hkind
      have hnone := hoperator.payload_eq_none (fun heq => absurd (heq ▸ hkind) (by decide))
        (fun heq => absurd (heq ▸ hkind) (by decide))
      rw [← hnode]
      exact .operands hlevel hnone hleft hright
  | logical hkind hoperator _ _ hleft hright =>
      obtain ⟨level, hlevel, hnode⟩ := exists_level_of_logical hkind
      have hnone := hoperator.payload_eq_none (by rcases hkind with h | h <;> simp [h])
        (by rcases hkind with h | h <;> simp [h])
      rw [← hnode]
      exact .operands hlevel hnone hleft hright
  | call _ _ hlength hcallee harguments =>
      exact .call (hcallee.enclosed (by decide))
        (fun argument hargument => (harguments argument hargument).of_le (Nat.zero_le _)) hlength

/-- Tokens that stand for the same as some that can be spelled come before the end. -/
theorem Token.kind_ne_eof_of_sense {read tokens : List Token} (h : Legible tokens)
    (hsense : read.map sense = tokens.map sense) : ∀ token ∈ read, token.kind ≠ .eof := by
  intro token htoken
  have hmem : token.sense ∈ tokens.map sense := hsense ▸ List.mem_map_of_mem htoken
  obtain ⟨other, hother, heq⟩ := List.mem_map.mp hmem
  obtain ⟨word, hword⟩ := h other hother
  rw [← kind_of_sense heq]
  exact hword.lexeme.ne_eof

/-- Tokens that derive an expression are read as it. -/
theorem Expr.ofTokens_of_phrase {tokens : List Token} {node : Expr}
    (h : Phrase .strict .assignment (untilEof tokens).1 node) : ofTokens tokens = .ok node := by
  have hreads := h.readsBack (untilEof tokens).2 [] (by simp [NoneAhead])
  rw [List.append_nil] at hreads
  obtain ⟨errors, left, hread, rfl⟩ := hreads
  simp only [ofTokens, hread]
  rfl

/-- What can be written is read back. It has a text, and every text of its tokens with blanks
between them is scanned without errors and read as the same expression, but for groupings,
lines, and the tokens that close calls. It has parentheses only where it needs them: a rule
that asks for more strength than the expression has does not derive it. -/
theorem Expr.reads_back {node : Expr} (h : node.Plain) :
    (∃ source : String, Spaced node.tokens source.toList) ∧
    (∀ source : String, Spaced node.tokens source.toList →
      LexError.ofScan (Token.scan source) = [] ∧
        ∃ tree, ofTokens (Token.ofScan (Token.scan source)) = .ok tree ∧
          tree.stripped = node.stripped) ∧
    ∀ reading rule tokens, node.strength < rule.strength →
      ¬ Phrase reading rule tokens node := by
  refine ⟨?written, ?read, ?needed⟩
  case written =>
    obtain ⟨text, htext⟩ := exists_spaced h.legible
    refine ⟨String.ofList text, ?_⟩
    rw [String.toList_ofList]
    exact htext
  case read =>
    intro source hsource
    obtain ⟨scanned, last, hscanned, hsense⟩ := Token.scanSegments_of_spaced hsource 1
    replace hscanned : Token.scan source = scanned.map .ok ++ [.ok (Token.eof last)] := hscanned
    have herrors : LexError.ofScan (Token.scan source) = [] := by
      rw [hscanned, LexError.ofScan_append, LexError.ofScan_map_ok]
      rfl
    have htokens : Token.ofScan (Token.scan source) = scanned ++ [Token.eof last] := by
      rw [hscanned, Token.ofScan_append, Token.ofScan_map_ok]
      rfl
    have hends : (untilEof (scanned ++ [Token.eof last])).1 = scanned := by
      rw [untilEof_append (Token.kind_ne_eof_of_sense h.legible hsense), untilEof_end rfl]
      exact List.append_nil scanned
    obtain ⟨tree, hphrase, hstripped⟩ := h.reads.of_le (Nat.zero_le _) scanned hsense
    refine ⟨herrors, tree, ?_, hstripped⟩
    rw [htokens]
    apply ofTokens_of_phrase
    rw [hends]
    exact hphrase
  case needed =>
    intro reading rule tokens hweak hphrase
    exact absurd hphrase.strength_le (Nat.not_le_of_lt hweak)

/-- The text `a * ( a - a )` is read as a product with a difference in it. -/
theorem Expr.reads_back_product :
    ∃ tree, ofTokens (Token.ofScan (Token.scan "a * ( a - a )")) = .ok tree ∧
      tree.stripped =
        .binary (.variable ⟨.identifier, "a", none, 0⟩) ⟨.star, "*", none, 0⟩
          (.binary (.variable ⟨.identifier, "a", none, 0⟩) ⟨.minus, "-", none, 0⟩
            (.variable ⟨.identifier, "a", none, 0⟩)) := by
  have hname : (Token.mark .identifier "a").Genuine := by
    apply Token.genuine_mark (.identifier ?_ ?_) (by decide) (by decide)
    · exact ⟨.inl (by decide), fun c hc => by cases hc⟩
    · intro keyword
      cases keyword <;> decide
  have hstar : (Token.mark .star "*").Genuine :=
    Token.genuine_mark (.operator (by decide)) (by decide) (by decide)
  have hminus : (Token.mark .minus "-").Genuine :=
    Token.genuine_mark (.operator (by decide)) (by decide) (by decide)
  have hplain : Plain (.binary (.variable (.mark .identifier "a")) (.mark .star "*")
      (.binary (.variable (.mark .identifier "a")) (.mark .minus "-")
        (.variable (.mark .identifier "a")))) :=
    .binary (by decide) hstar (.variable rfl hname)
      (.binary (by decide) hminus (.variable rfl hname) (.variable rfl hname))
  have hspace : ' ' ∈ blanks := by decide
  have hspaced := Spaced.token hname (.blank hspace (.token hstar (.blank hspace
    (.token genuine_opening (.blank hspace (.token hname (.blank hspace (.token hminus
      (.blank hspace (.token hname (.blank hspace (.token genuine_closing .nil (by simp)))
        (by simp))) (by simp))) (by simp))) (by simp))) (by simp))) (by simp)
  obtain ⟨_, hread, _⟩ := reads_back hplain
  exact (hread "a * ( a - a )" hspaced).2

end LoxLang
