/-
# How far expressions look ahead

All rules for expressions are local. What they can go on with, and so must not follow
where they end, are the operators of their own tier and of the tighter ones, an opening
parenthesis, and for a whole expression also the sign of assignment.
-/

import LoxLang.Proofs.Grammar.ExpressionComplete
import LoxLang.Proofs.Grammar.Locality

namespace LoxLang

open Attempt

namespace Grammar

variable (eof : Token)

/-- Excess is noted at the first of the tokens. -/
theorem excess_congr {fault : SyntaxFault} {count : Nat} {tokens other : List Token}
    (hne : tokens ≠ []) (hhead : tokens.head? = other.head?) (eof eof' : Token) :
    excess eof fault count tokens = excess eof' fault count other := by
  cases tokens with
  | nil => exact absurd rfl hne
  | cons token rest =>
      obtain ⟨rest, rfl⟩ := List.head?_eq_some_iff.mp hhead.symm
      rfl

variable {kinds : List TokenKind} {tokens : List Token}

theorem local_assigned (target value : Expr) (equals : Token) :
    Local kinds (fun _ _ => assigned target equals value) eof tokens := by
  cases target with
  | «variable» name => exact .done
  | _ => exact .of_read rfl [] rfl fun _ _ _ => rfl

/-- A phrase that is a single token is read whatever comes next. -/
theorem result_primary {token : Token} {value : Expr} (h : Phrase .strict .primary [token] value)
    (eof : Token) (after : List Token) :
    (primary eof (token :: after)).result = .read value after [] := by
  have hread : ReadsBack eof .strict .primary [token] value := h.readsBack eof
  obtain ⟨errors, left, heq, hadmits⟩ := hread after
  obtain rfl : errors = [] := hadmits
  exact congrArg Attempt.result heq

/-- A number or a string without a value is objected to whatever comes next. -/
theorem result_malformed {token : Token} (hkind : token.kind = .number ∨ token.kind = .string)
    (hpayload : token.payload = none) (eof : Token) (after : List Token) :
    (primary eof (token :: after)).result = .gaveUp ⟨.malformedLiteral, token⟩ after [] := by
  rw [primary]
  rcases hkind with hkind | hkind <;> simp only [hkind, hpayload] <;> rfl

theorem primary_grouping {opening : Token} (h : opening.kind = .leftParen) :
    primary eof (opening :: tokens) = ((expression eof tokens).andThen fun inner rest _ =>
      (expect eof .rightParen .noParenAfterExpression rest).map fun _ =>
        .grouping inner).afterToken := by
  rw [primary]
  simp only [h]

theorem local_malformed {token : Token} (hkind : token.kind = .number ∨ token.kind = .string)
    (hpayload : token.payload = none) : Local kinds primary eof (token :: tokens) := by
  apply Local.of_gaveUp (result_malformed hkind hpayload eof tokens) [token] rfl
    (.inr ⟨[], rfl, hkind⟩)
  rintro next after rfl eof other
  exact result_malformed hkind hpayload eof (next :: other)

/-- The rules for expressions are local. -/
theorem local_rules :
    (∀ tokens, Local (.equal :: continuations tiers) expression eof tokens) ∧
    (∀ levels tokens, Local (continuations levels)
      (fun eof tokens => chain eof levels tokens) eof tokens) ∧
    (∀ tier tighter left tokens, Local (continuations (tier :: tighter))
      (fun eof tokens => operands eof tier tighter left tokens) eof tokens) ∧
    (∀ tokens, Local (continuations []) unary eof tokens) ∧
    (∀ tokens, Local (continuations []) application eof tokens) ∧
    (∀ callee tokens, Local (continuations [])
      (fun eof tokens => calls eof callee tokens) eof tokens) ∧
    (∀ callee tokens, Local [] (fun eof tokens => callOf eof callee tokens) eof tokens) ∧
    (∀ count tokens, Local (.comma :: .equal :: continuations tiers)
      (fun eof tokens => arguments eof count tokens) eof tokens) ∧
    (∀ tokens, Local [] primary eof tokens) := by
  refine expression.mutual_induct _ _ _ _ _ _ _ _ _ ?expression ?innermost ?tier ?operands
    ?unary ?application ?calls ?callOf ?arguments ?atEnd ?false ?true ?nil ?number ?badNumber
    ?string ?badString ?name ?grouping ?other
  case expression =>
    intro tokens ihchain ihvalue
    apply Local.congr fun eof tokens => by rw [expression]
    apply ihchain.andThen
    · intro _ kind hkind
      exact List.mem_cons_of_mem _ hkind
    · intro target rest left
      apply Local.accept
      · intro _ kind hkind
        rw [List.mem_singleton.mp hkind]
        exact List.mem_cons_self
      · intro equals after short _
        apply (ihvalue rest left after short).andThen
        · exact fun _ _ => id
        · intro value unread _
          exact local_assigned eof target value equals
      · intro _
        exact .done
  case innermost =>
    intro tokens ih
    exact ih.congr fun eof tokens => by rw [chain]
  case tier =>
    intro tokens tier tighter ihleft ihrest
    apply Local.congr fun eof tokens => by rw [chain]
    apply ihleft.andThen
    · intro _ kind hkind
      exact mem_continuations_cons.mpr (.inr hkind)
    · intro value rest left
      exact ihrest value rest left
  case operands =>
    intro tier tighter left tokens ihright ihrest
    apply Local.congr fun eof tokens => by rw [operands]
    apply Local.accept
    · intro _ kind hkind
      exact mem_continuations_cons.mpr (.inl hkind)
    · intro operator after short _
      apply (ihright after short).andThen
      · intro _ kind hkind
        exact mem_continuations_cons.mpr (.inr hkind)
      · intro right rest hshort
        exact ihrest operator after short right rest hshort
    · intro _
      exact .done
  case unary =>
    intro tokens ihoperand ihcall
    apply Local.congr fun eof tokens => by rw [unary]
    apply Local.choose
    · intro operator after short _
      exact (ihoperand after short).map
    · intro _
      exact ihcall
  case application =>
    intro tokens ihcallee ihcalls
    apply Local.congr fun eof tokens => by rw [application]
    apply ihcallee.andThen
    · intro _ kind hkind
      cases hkind
    · exact ihcalls
  case calls =>
    intro callee tokens ihcall ihmore
    apply Local.congr fun eof tokens => by rw [calls]
    apply Local.accept
    · exact fun _ _ => id
    · intro opening after short _
      apply (ihcall after short).andThen
      · intro _ kind hkind
        cases hkind
      · exact ihmore after short
    · intro _
      exact .done
  case callOf =>
    intro callee tokens iharguments
    apply Local.congr fun eof tokens => by rw [callOf]
    apply Local.choose
    · intro closing after short _
      exact .done
    · intro _
      apply iharguments.before
      intro values rest left
      exact local_expect.map
  case arguments =>
    intro count tokens ihfirst ihothers
    apply Local.congr fun eof tokens => by rw [arguments]
    apply Local.noting excess_congr
    apply ihfirst.andThen
    · intro _ kind hkind
      exact List.mem_cons_of_mem _ hkind
    · intro value rest left
      apply Local.accept
      · intro _ kind hkind
        rw [List.mem_singleton.mp hkind]
        exact List.mem_cons_self
      · intro comma after short _
        exact (ihothers rest left after short).map
      · intro _
        exact .done
  case atEnd =>
    have hresult : (primary eof []).result = .gaveUp ⟨.noExpression, eof⟩ [] [] := by
      rw [primary]
      rfl
    exact .giveUp_end hresult
  case false =>
    intro token after hkind
    exact .single _ (result_primary (.false hkind))
  case true =>
    intro token after hkind
    exact .single _ (result_primary (.true hkind))
  case nil =>
    intro token after hkind
    exact .single _ (result_primary (.nil hkind))
  case number =>
    intro token after hkind payload hpayload
    exact .single _ (result_primary (.constant (.inl hkind) hpayload))
  case badNumber =>
    intro token after hkind hpayload
    exact local_malformed eof (.inl hkind) hpayload
  case string =>
    intro token after hkind payload hpayload
    exact .single _ (result_primary (.constant (.inr hkind) hpayload))
  case badString =>
    intro token after hkind hpayload
    exact local_malformed eof (.inr hkind) hpayload
  case name =>
    intro token after hkind
    exact .single _ (result_primary (.name hkind))
  case grouping =>
    intro opening after hopening ih
    have hinner : Local [] (fun eof tokens => (expression eof tokens).andThen fun inner rest _ =>
        (expect eof .rightParen .noParenAfterExpression rest).map fun _ => Expr.grouping inner)
        eof after := by
      apply ih.before
      intro inner rest left
      exact local_expect.map
    exact hinner.cons fun eof tokens => primary_grouping eof hopening
  case other =>
    intro token after hfalse htrue hnil hnumber hstring hidentifier hparen
    have hnone : Local [] (fun eof tokens =>
        (.fail ⟨.noExpression, nextOr eof tokens⟩ tokens [] (Nat.le_refl _) :
          Attempt true Expr tokens)) eof (token :: after) := .giveUp fun _ _ => rfl
    apply hnone.of_head
    intro eof after
    rw [primary]
    split <;> first | contradiction | rfl

theorem local_expression (tokens : List Token) :
    Local (.equal :: continuations tiers) expression eof tokens :=
  (local_rules eof).1 tokens

end Grammar

end LoxLang
