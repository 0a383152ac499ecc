/-
# What a parser has before it

The tokens that count are those before the first one for the end, and a parser has before it
the ones of them from its index on. It stands at this list as long as its index is not
behind the place where the tokens that count end. The list is all that a parser can tell
apart: it is what looking at the next token and passing it come to.

So a rule for parsers can be held against the rule for lists of tokens. It follows the latter
if it ends with the same value or the same fatal error, has found the same errors, and stands
at the list that the other rule left. Each combinator of the rules gets one lemma.
-/

import LoxLang.Proofs.Grammar.Locality
import LoxLang.Proofs.Grammar.Outcome
import LoxLang.Proofs.Grammar.Parser
import Mathlib.Data.List.TakeWhile

namespace LoxLang

open Grammar

namespace Result

variable {α : Type}

/-- What a rule comes to, be it a value or a fatal error. -/
def outcome : Result α → Except SyntaxError α
  | .read value _ _ => .ok value
  | .gaveUp fatal _ _ => .error fatal

/-- The tokens that are left. -/
def unread : Result α → List Token
  | .read _ rest _ => rest
  | .gaveUp _ rest _ => rest

/-- The errors that were noted on the way. -/
def noted : Result α → List SyntaxError
  | .read _ _ errors => errors
  | .gaveUp _ _ errors => errors

end Result

namespace Attempt

variable {a b : Bool} {α β γ : Type} {tokens : List Token}

/-- An attempt leaves no more tokens than it was given. -/
theorem length_unread_le (attempt : Attempt a α tokens) :
    attempt.result.unread.length ≤ tokens.length := by
  cases attempt with
  | ok value rest errors left => exact Nat.le_of_add_right_le left
  | fail fatal rest errors left => exact left

theorem map_noting (f : α → β) (errors : List SyntaxError) (attempt : Attempt a α tokens) :
    (attempt.noting errors).map f = (attempt.map f).noting errors := by
  cases attempt <;> rfl

theorem noting_nil (attempt : Attempt a α tokens) : attempt.noting [] = attempt := by
  cases attempt <;> rfl

theorem map_map (f : α → β) (g : β → γ) (attempt : Attempt a α tokens) :
    (attempt.map f).map g = attempt.map fun value => g (f value) := by
  cases attempt <;> rfl

theorem map_andThen (f : β → γ) (attempt : Attempt a α tokens)
    (next : α → (rest : List Token) → rest.length + a.toNat ≤ tokens.length → Attempt b β rest) :
    (attempt.andThen next).map f =
      attempt.andThen fun value rest left => (next value rest left).map f := by
  cases attempt with
  | ok value rest errors left =>
      simp only [andThen]
      cases next value rest left <;> rfl
  | fail fatal rest errors left => rfl

theorem map_accept (f : α → β) {kinds : List TokenKind}
    (found : Token → (rest : List Token) → rest.length < tokens.length → Attempt b α rest)
    (absent : Attempt a α tokens) :
    (accept kinds tokens found absent).map f =
      accept kinds tokens (fun token rest short => (found token rest short).map f)
        (absent.map f) := by
  cases tokens with
  | nil => rfl
  | cons token rest =>
      simp only [accept]
      split
      · cases found token rest _ <;> rfl
      · rfl

end Attempt

namespace Parser

variable {tokens rest : List Token} {index : Nat}

/-! ## The place where the tokens end -/

/-- The index of the first token for the end, and that behind the last token if there is no
such token. -/
def stop (tokens : List Token) : Nat :=
  tokens.findIdx (·.kind == .eof)

/-- The tokens that count from an index on. -/
def remaining (tokens : List Token) (index : Nat) : List Token :=
  (untilEof tokens).1.drop index

theorem stop_le_length (tokens : List Token) : stop tokens ≤ tokens.length :=
  List.findIdx_le_length

theorem untilEof_eq_take (tokens : List Token) :
    (untilEof tokens).1 = tokens.take (stop tokens) := by
  have twice : (fun token : Token => !(token.kind != .eof)) = (·.kind == .eof) := by
    funext token
    exact Bool.not_not _
  rw [stop, ← twice]
  exact List.takeWhile_eq_take_findIdx_not

theorem length_remaining (tokens : List Token) (index : Nat) :
    (remaining tokens index).length = stop tokens - index := by
  rw [remaining, untilEof_eq_take, List.length_drop, List.length_take,
    Nat.min_eq_left (stop_le_length tokens)]

theorem remaining_of_lt (h : index < stop tokens) :
    ∃ token, tokens[index]? = some token ∧ token.kind ≠ .eof ∧
      remaining tokens index = token :: remaining tokens (index + 1) := by
  have inside : index < tokens.length := Nat.lt_of_lt_of_le h (stop_le_length tokens)
  have counted : index < (tokens.take (stop tokens)).length := by
    rw [List.length_take]
    exact Nat.lt_min.mpr ⟨h, inside⟩
  refine ⟨tokens[index], List.getElem?_eq_getElem inside, ?_, ?_⟩
  · simpa using List.not_of_lt_findIdx h
  · rw [remaining, remaining, untilEof_eq_take, List.drop_eq_getElem_cons counted,
      List.getElem_take]

/-- What is found where the tokens end is what errors at the end are located at. -/
theorem getElem?_stop (tokens : List Token) :
    tokens[stop tokens]?.getD (Token.eof 0) = (untilEof tokens).2 := by
  rw [stop, ← List.find?_eq_getElem?_findIdx]
  rfl

/-- The parser is one over the tokens, its index is not behind the place where they end, and
the given tokens count from there on. -/
structure Stands (tokens : List Token) (parser : Parser) (rest : List Token) : Prop where
  slice : parser.tokens = tokens
  within : parser.current ≤ stop tokens
  ahead : remaining tokens parser.current = rest

/-- A rule has led from one parser to another, where the given tokens remain. The given
errors were found on the way, and as many functions are open as before. -/
structure Leads (tokens : List Token) (parser after : Parser) (rest : List Token)
    (errors : List SyntaxError) : Prop where
  stands : Stands tokens after rest
  found : after.errors = parser.errors ++ errors
  depth : after.functionDepth = parser.functionDepth

variable {parser after last : Parser} {token : Token} {unread : List Token}
  {errors later : List SyntaxError}

theorem stands_start (tokens : List Token) : Stands tokens (start tokens) (untilEof tokens).1 :=
  ⟨rfl, Nat.zero_le _, rfl⟩

namespace Leads

theorem trans (h : Leads tokens parser after rest errors)
    (then' : Leads tokens after last unread later) :
    Leads tokens parser last unread (errors ++ later) where
  stands := then'.stands
  found := by rw [then'.found, h.found, List.append_assoc]
  depth := then'.depth.trans h.depth

/-- What led over a parser without errors leads on. -/
theorem of_silent (h : Leads tokens parser after rest [])
    (then' : Leads tokens after last unread errors) : Leads tokens parser last unread errors :=
  h.trans then'

end Leads

namespace Stands

theorem leads (h : Stands tokens parser rest) : Leads tokens parser parser rest [] :=
  ⟨h, (List.append_nil _).symm, rfl⟩

theorem length (h : Stands tokens parser rest) : rest.length = stop tokens - parser.current := by
  rw [← h.ahead, length_remaining]

/-- A parser that stands at fewer tokens is further on. -/
theorem current_lt (h : Stands tokens parser rest) (hafter : Stands tokens after unread)
    (shorter : unread.length < rest.length) : parser.current < after.current := by
  have := h.length
  have := hafter.length
  omega

theorem current_le (h : Stands tokens parser rest) (hafter : Stands tokens after unread)
    (shorter : unread.length ≤ rest.length) : parser.current ≤ after.current := by
  have := h.length
  have := hafter.length
  have := h.within
  have := hafter.within
  omega

/-- The tokens ahead tell the index. -/
theorem current_eq (h : Stands tokens parser rest) (hafter : Stands tokens after rest) :
    parser.current = after.current :=
  Nat.le_antisymm (h.current_le hafter (Nat.le_refl _)) (hafter.current_le h (Nat.le_refl _))

theorem current_nil (h : Stands tokens parser []) : parser.current = stop tokens := by
  have := h.length
  have := h.within
  simp only [List.length_nil] at *
  omega

/-- The next token is the one under the index, and it is not for the end. -/
theorem cons (h : Stands tokens parser (token :: rest)) :
    parser.tokens[parser.current]? = some token ∧ token.kind ≠ .eof ∧
      Stands tokens { parser with current := parser.current + 1 } rest := by
  have inside : parser.current < stop tokens := by
    have := h.length
    rw [List.length_cons] at this
    omega
  obtain ⟨next, hnext, hkind, hrest⟩ := remaining_of_lt inside
  rw [h.ahead] at hrest
  cases hrest
  exact ⟨h.slice ▸ hnext, hkind, h.slice, inside, rfl⟩

theorem peek (h : Stands tokens parser rest) :
    parser.peek = nextOr (untilEof tokens).2 rest := by
  rw [Parser.peek]
  cases rest with
  | nil => rw [h.slice, h.current_nil, getElem?_stop, nextOr]
  | cons token rest => rw [h.cons.1, Option.getD_some, nextOr]

theorem isAtEnd (h : Stands tokens parser rest) : parser.isAtEnd = rest.isEmpty := by
  rw [Parser.isAtEnd, h.peek]
  cases rest with
  | nil => rw [nextOr, kind_untilEof, List.isEmpty_nil, beq_self_eq_true]
  | cons token rest =>
      rw [nextOr, List.isEmpty_cons]
      exact beq_false_of_ne h.cons.2.1

/-- The end is met where the tokens end, and nowhere before. -/
theorem isAtEnd_iff (h : Stands tokens parser rest) :
    parser.isAtEnd = true ↔ parser.current = stop tokens := by
  have := h.length
  have := h.within
  rw [h.isAtEnd, List.isEmpty_iff, ← List.length_eq_zero_iff]
  omega

theorem check (h : Stands tokens parser rest) (kind : TokenKind) :
    parser.check kind = startsWith kind rest := by
  rw [Parser.check, h.isAtEnd, h.peek]
  cases rest with
  | nil => rfl
  | cons token rest => rfl

theorem advance_eq (h : Stands tokens parser (token :: rest)) :
    parser.advance = { parser with current := parser.current + 1 } := by
  rw [Parser.advance, h.isAtEnd]
  rfl

/-- Passing a token leads to the others. -/
theorem advance (h : Stands tokens parser (token :: rest)) :
    Leads tokens parser parser.advance rest [] := by
  rw [h.advance_eq]
  exact ⟨h.cons.2.2, (List.append_nil _).symm, rfl⟩

theorem previous_advance (h : Stands tokens parser (token :: rest)) :
    parser.advance.previous = token := by
  rw [h.advance_eq, previous, Nat.add_sub_cancel, h.cons.1, Option.getD_some]

/-- At the end nothing is passed. -/
theorem advance_nil (h : Stands tokens parser []) : parser.advance = parser := by
  rw [Parser.advance, h.isAtEnd]
  rfl

/-- Passing never leads behind the end. -/
theorem current_advance (h : Stands tokens parser rest) :
    parser.current ≤ parser.advance.current ∧ parser.advance.current ≤ stop tokens := by
  cases rest with
  | nil =>
      rw [h.advance_nil]
      exact ⟨Nat.le_refl _, h.within⟩
  | cons token rest =>
      have passed := h.advance.stands
      exact ⟨Nat.le_of_lt (h.current_lt passed (Nat.lt_succ_self _)), passed.within⟩

theorem record (h : Stands tokens parser rest) (error : SyntaxError) :
    Leads tokens parser (parser.record error) rest [error] :=
  ⟨⟨h.slice, h.within, h.ahead⟩, rfl, rfl⟩

/-! ## Recovery -/

/-- Once a token is passed, the index is led to where the tokens are dropped up to. The
induction is on the tokens that remain, one of which is dropped at each step. -/
theorem seek (h : Stands tokens parser (token :: rest)) :
    Leads tokens parser parser.advance.seek (resume (token :: rest)) [] := by
  induction rest generalizing parser token with
  | nil =>
      have hend := h.advance
      rw [Parser.seek, hend.stands.isAtEnd, List.isEmpty_nil, if_pos rfl, resume,
        if_pos (.inr rfl)]
      exact hend
  | cons next rest ih =>
      have hnext := h.advance
      rw [Parser.seek, hnext.stands.isAtEnd, List.isEmpty_cons, if_neg Bool.false_ne_true,
        h.previous_advance, hnext.stands.peek, nextOr, resume]
      have same : (token.kind = .semicolon ∨ resumesAt (next :: rest) = true) ↔
          (token.kind = .semicolon ∨ next.kind ∈ resumeWords.map TokenKind.keyword) := by
        rw [resumesAt, decide_eq_true_iff]
      by_cases hresumes : token.kind = .semicolon ∨ next.kind ∈ resumeWords.map TokenKind.keyword
      · rw [if_pos hresumes, if_pos (same.mpr hresumes)]
        exact hnext
      · rw [if_neg hresumes, if_neg (same.not.mpr hresumes)]
        exact hnext.of_silent (ih hnext.stands)

/-- Recovery leads to where the tokens are dropped up to. -/
theorem synchronize (h : Stands tokens parser rest) :
    Leads tokens parser parser.synchronize (resume rest) [] := by
  rw [Parser.synchronize]
  cases rest with
  | nil =>
      rw [h.advance_nil, Parser.seek, h.isAtEnd, List.isEmpty_nil, if_pos rfl]
      exact h.leads
  | cons token rest => exact h.seek

end Stands

/-- Where a rule leads to is told by what is left and by what was found. -/
theorem Leads.unique (h : Leads tokens parser after rest errors)
    (hlast : Leads tokens parser last rest errors) : last = after := by
  have hslice := hlast.stands.slice.trans h.stands.slice.symm
  have hcurrent := hlast.stands.current_eq h.stands
  have hfound := hlast.found.trans h.found.symm
  have hdepth := hlast.depth.trans h.depth.symm
  obtain ⟨_, _, _, _⟩ := last
  obtain ⟨_, _, _, _⟩ := after
  cases hslice
  cases hcurrent
  cases hfound
  cases hdepth
  rfl

/-! ## Rules that follow rules -/

section

variable {α β : Type} {rule : Parsing α} {next : α → Parsing β}

theorem bind_of_ok {value : α} (h : rule parser = some (.ok value, after)) :
    (rule >>= next) parser = next value after := by
  change (rule parser >>= fun ran => ExceptT.bindCont next ran.1 ran.2) = _
  rw [h]
  rfl

theorem bind_of_error {fatal : SyntaxError} (h : rule parser = some (.error fatal, after)) :
    (rule >>= next) parser = some (.error fatal, after) := by
  change (rule parser >>= fun ran => ExceptT.bindCont next ran.1 ran.2) = _
  rw [h]
  rfl

theorem get_bind (rule : Parser → Parsing α) : (get >>= rule) parser = rule parser parser := rfl

/-- The rule comes to what is made of a list of tokens, and leads to what is left of it. -/
def Follows (tokens : List Token) (rule : Parsing α) (parser : Parser) (result : Result α) : Prop :=
  ∃ after, rule parser = some (result.outcome, after) ∧
    Leads tokens parser after result.unread result.noted

end

namespace Follows

variable {a b : Bool} {α β : Type} {rule other : Parsing α} {next : α → Parsing β}
  {result : Result α} {attempt : Attempt a α rest}

theorem done (h : Stands tokens parser rest) (value : α) :
    Follows tokens (pure value) parser (.read value rest []) :=
  ⟨parser, rfl, h.leads⟩

theorem giveUp (h : Stands tokens parser rest) (fatal : SyntaxError) :
    Follows tokens (throw fatal : Parsing α) parser (.gaveUp fatal rest []) :=
  ⟨parser, rfl, h.leads⟩

theorem of_eq (h : Follows tokens rule parser result) (heq : other parser = rule parser) :
    Follows tokens other parser result := by
  rw [Follows, heq]
  exact h

theorem of_nil_append {rule : Parsing (List α)} {items : Attempt a (List α) rest}
    (h : Follows tokens rule parser (items.map ([] ++ ·)).result) :
    Follows tokens rule parser items.result := by
  cases items with
  | ok value rest errors left => exact h
  | fail fatal rest errors left => exact h

/-- A rule may pass one token and go on like another. -/
theorem of_advance (h : Stands tokens parser (token :: rest))
    (heq : other parser = rule parser.advance)
    (hrule : Follows tokens rule parser.advance result) : Follows tokens other parser result := by
  obtain ⟨after, hafter, leads⟩ := hrule
  exact ⟨after, heq.trans hafter, h.advance.of_silent leads⟩

/-- A rule that passes one token reads it. -/
theorem passed {value : α} (h : Stands tokens parser (token :: rest))
    (heq : rule parser = (pure value : Parsing α) parser.advance) :
    Follows tokens rule parser (.read value rest []) :=
  ⟨parser.advance, heq, h.advance⟩

/-- A rule may look at the parser. -/
theorem got {rule : Parser → Parsing α} (h : Follows tokens (rule parser) parser result) :
    Follows tokens (get >>= rule) parser result := h

/-- What is followed from where something was noted is followed with that in front. -/
theorem of_leads (h : Leads tokens parser after rest errors)
    (hrule : Follows tokens rule after result) (heq : other parser = rule after) :
    Follows tokens other parser (result.noting errors) := by
  obtain ⟨last, hlast, leads⟩ := hrule
  refine ⟨last, ?_, ?_⟩
  · rw [heq, hlast]
    cases result <;> rfl
  · have := h.trans leads
    cases result <;> exact this

/-- One rule after another. -/
theorem andThen {then' : α → (rest : List Token) → Attempt b β rest}
    (h : Follows tokens rule parser attempt.result)
    (hnext : ∀ value unread, unread.length + a.toNat ≤ rest.length → ∀ after,
      Stands tokens after unread → after.functionDepth = parser.functionDepth →
        Follows tokens (next value) after (then' value unread).result) :
    Follows tokens (rule >>= next) parser
      (attempt.andThen fun value rest _ => then' value rest).result := by
  obtain ⟨after, hrule, leads⟩ := h
  rw [Attempt.result_andThen]
  cases hresult : attempt.result with
  | read value unread errors =>
      rw [hresult] at hrule leads
      have hthen :=
        hnext value unread (Attempt.length_of_read hresult) after leads.stands leads.depth
      exact of_leads leads hthen (bind_of_ok hrule)
  | gaveUp fatal unread errors =>
      rw [hresult] at hrule leads
      exact ⟨after, bind_of_error hrule, leads⟩

/-- What a rule reads may be made into something else. -/
theorem map (h : Follows tokens rule parser attempt.result) (f : α → β) :
    Follows tokens (rule >>= fun value => pure (f value)) parser (attempt.map f).result := by
  obtain ⟨after, hrule, leads⟩ := h
  rw [Attempt.result_map]
  cases hresult : attempt.result with
  | read value unread errors =>
      rw [hresult] at hrule leads
      exact ⟨after, bind_of_ok hrule, leads⟩
  | gaveUp fatal unread errors =>
      rw [hresult] at hrule leads
      exact ⟨after, bind_of_error hrule, leads⟩

/-- An error may be noted in front. -/
theorem noting (h : Stands tokens parser rest) {fault : SyntaxFault}
    (hrule : Follows tokens rule (parser.record ⟨fault, token⟩) attempt.result) :
    Follows tokens (note fault token >>= fun _ => rule) parser
      (attempt.noting [⟨fault, token⟩]).result := by
  rw [Attempt.result_noting]
  exact of_leads (h.record ⟨fault, token⟩) hrule rfl

end Follows

/-! ## Looking at the next token -/

theorem startsWith_of_noneAhead {kind : TokenKind} (hnone : NoneAhead [kind] rest) :
    startsWith kind rest = false := by
  cases rest with
  | nil => rfl
  | cons token rest => exact beq_false_of_ne (List.mem_singleton.not.mp (noneAhead_cons.mp hnone))

theorem matchKind_eq (h : Stands tokens parser rest) (kind : TokenKind) : matchKind kind parser =
    some (.ok (startsWith kind rest), if startsWith kind rest then parser.advance else parser) := by
  have unfolded : matchKind kind parser = (if parser.check kind then
      (do set parser.advance; return true : Parsing Bool) else return false) parser := rfl
  rw [unfolded, h.check]
  cases startsWith kind rest <;> rfl

theorem matchAny_of_noneAhead (h : Stands tokens parser rest) {kinds : List TokenKind}
    (hnone : NoneAhead kinds rest) :
    matchAny kinds parser = some (.ok false, parser) := by
  induction kinds with
  | nil => rfl
  | cons kind kinds ih =>
      have hfirst : NoneAhead [kind] rest := hnone.mono (by simp)
      have hmatch := matchKind_eq h kind
      rw [startsWith_of_noneAhead hfirst] at hmatch
      rw [matchAny, bind_of_ok hmatch]
      exact ih (hnone.mono fun _ => List.mem_cons_of_mem kind)

theorem matchAny_of_mem (h : Stands tokens parser (token :: rest)) {kinds : List TokenKind}
    (hmem : token.kind ∈ kinds) : matchAny kinds parser = some (.ok true, parser.advance) := by
  induction kinds with
  | nil => cases hmem
  | cons kind kinds ih =>
      have hmatch := matchKind_eq h kind
      rw [matchAny]
      by_cases hkind : token.kind = kind
      · rw [startsWith, hkind, beq_self_eq_true] at hmatch
        rw [bind_of_ok hmatch]
        rfl
      · rw [startsWith, beq_false_of_ne hkind] at hmatch
        rw [bind_of_ok hmatch]
        exact ih ((List.mem_cons.mp hmem).resolve_left hkind)

theorem consume_eq (kind : TokenKind) (fault : SyntaxFault) (parser : Parser) :
    consume kind fault parser = (if parser.check kind then
      (do set parser.advance; return parser.advance.previous : Parsing Token)
      else throw ⟨fault, parser.peek⟩) parser := rfl

theorem consume_of_kind {kind : TokenKind} {fault : SyntaxFault}
    (h : Stands tokens parser (token :: rest)) (hkind : token.kind = kind) :
    consume kind fault parser = some (.ok token, parser.advance) := by
  rw [consume_eq, h.check, startsWith, hkind, beq_self_eq_true, if_pos rfl, h.previous_advance]
  rfl

theorem consume_of_noneAhead {kind : TokenKind} {fault : SyntaxFault}
    (h : Stands tokens parser rest) (hnone : NoneAhead [kind] rest) :
    consume kind fault parser =
      some (.error ⟨fault, nextOr (untilEof tokens).2 rest⟩, parser) := by
  rw [consume_eq, h.check, startsWith_of_noneAhead hnone, h.peek]
  rfl

theorem matchAny_singleton (kind : TokenKind) : matchAny [kind] = matchKind kind := by
  have same : (fun found : Bool => if found then return true else matchAny []) =
      (pure : Bool → Parsing Bool) := by
    funext found
    cases found <;> rfl
  rw [matchAny, same, bind_pure]

section

variable {α : Type} {rule other : Parsing α}

theorem matchAny_bind (h : Stands tokens parser (token :: rest)) (kinds : List TokenKind) :
    (matchAny kinds >>= fun matched => if matched then rule else other) parser =
      if token.kind ∈ kinds then rule parser.advance else other parser := by
  by_cases hmem : token.kind ∈ kinds
  · rw [bind_of_ok (matchAny_of_mem h hmem), if_pos rfl, if_pos hmem]
  · rw [bind_of_ok (matchAny_of_noneAhead h (noneAhead_cons.mpr hmem)),
      if_neg Bool.false_ne_true, if_neg hmem]

theorem matchAny_bind_nil (h : Stands tokens parser []) (kinds : List TokenKind) :
    (matchAny kinds >>= fun matched => if matched then rule else other) parser = other parser := by
  rw [bind_of_ok (matchAny_of_noneAhead h (noneAhead_nil kinds)), if_neg Bool.false_ne_true]

theorem matchKind_bind_nil (h : Stands tokens parser []) (kind : TokenKind) :
    (matchKind kind >>= fun matched => if matched then rule else other) parser = other parser := by
  rw [← matchAny_singleton, matchAny_bind_nil h]

theorem matchKind_bind (h : Stands tokens parser (token :: rest)) (kind : TokenKind) :
    (matchKind kind >>= fun matched => if matched then rule else other) parser =
      if token.kind = kind then rule parser.advance else other parser := by
  rw [← matchAny_singleton, matchAny_bind h]
  simp only [List.mem_singleton]

end

namespace Follows

variable {a b : Bool} {α β : Type} {rule other : Parsing α} {kinds : List TokenKind}
  {found : Token → (rest : List Token) → Attempt b α rest} {absent : Attempt a α rest}

/-- A choice by the next token. -/
theorem choose (h : Stands tokens parser rest)
    (hfound : ∀ token unread, unread.length < rest.length → token.kind ∈ kinds → ∀ after,
      Stands tokens after unread → after.previous = token →
        after.functionDepth = parser.functionDepth →
          Follows tokens rule after (found token unread).result)
    (habsent : NoneAhead kinds rest → Follows tokens other parser absent.result) :
    Follows tokens (matchAny kinds >>= fun matched => if matched then rule else other) parser
      (accept kinds rest (fun token rest _ => found token rest) absent).result := by
  by_cases hnone : NoneAhead kinds rest
  · rw [accept_of_noneAhead hnone]
    exact (habsent hnone).of_eq (bind_of_ok (matchAny_of_noneAhead h hnone))
  · obtain ⟨token, later, rfl, hmem⟩ := exists_of_not_noneAhead hnone
    have passed := h.advance
    rw [accept, if_pos hmem, Attempt.result_afterToken]
    apply of_advance h (bind_of_ok (matchAny_of_mem h hmem))
    exact hfound token later (Nat.lt_succ_self _) hmem _ passed.stands h.previous_advance
      passed.depth

/-- A choice by whether the next token is of one kind. -/
theorem chooseKind {kind : TokenKind} (h : Stands tokens parser rest)
    (hfound : ∀ token unread, unread.length < rest.length → token.kind = kind → ∀ after,
      Stands tokens after unread → after.previous = token →
        after.functionDepth = parser.functionDepth →
          Follows tokens rule after (found token unread).result)
    (habsent : NoneAhead [kind] rest → Follows tokens other parser absent.result) :
    Follows tokens (matchKind kind >>= fun matched => if matched then rule else other) parser
      (accept [kind] rest (fun token rest _ => found token rest) absent).result := by
  rw [← matchAny_singleton]
  apply choose h _ habsent
  intro token unread short hmem
  exact hfound token unread short (List.mem_singleton.mp hmem)

/-- A token of some kind is passed, or the rule gives up at the next one. -/
theorem expect {kind : TokenKind} {fault : SyntaxFault} (h : Stands tokens parser rest) :
    Follows tokens (consume kind fault) parser
      (LoxLang.expect (untilEof tokens).2 kind fault rest).result := by
  by_cases hnone : NoneAhead [kind] rest
  · rw [LoxLang.expect, accept_of_noneAhead hnone]
    exact ⟨parser, consume_of_noneAhead h hnone, h.leads⟩
  · obtain ⟨token, later, rfl, hmem⟩ := exists_of_not_noneAhead hnone
    rw [LoxLang.expect, accept, if_pos hmem]
    exact ⟨parser.advance, consume_of_kind h (List.mem_singleton.mp hmem), h.advance⟩

/-- Excess is noted at the next token. -/
theorem excess {fault : SyntaxFault} {count : Nat} (h : Stands tokens parser rest)
    {attempt : Attempt a α rest}
    (hrule : ∀ after, Stands tokens after rest → after.functionDepth = parser.functionDepth →
      Follows tokens rule after attempt.result) :
    Follows tokens (noteExcess fault count >>= fun _ => rule) parser
      (attempt.noting (Grammar.excess (untilEof tokens).2 fault count rest)).result := by
  rw [Attempt.result_noting, Grammar.excess, ← h.peek]
  by_cases hmany : maxArity ≤ count
  · have recorded := h.record ⟨fault, parser.peek⟩
    rw [if_pos hmany]
    apply of_leads recorded (hrule _ recorded.stands recorded.depth)
    rw [noteExcess, if_pos hmany]
    rfl
  · rw [if_neg hmany]
    apply of_leads h.leads (hrule _ h rfl)
    rw [noteExcess, if_neg hmany]
    rfl

/-- Entries with commas between them, which are collected from the first one on. -/
theorem entries {entry : Parsing α} {others : List α → Parsing (List α)}
    {item : Attempt true α rest} {items : (rest : List Token) → Attempt true (List α) rest}
    {fault : SyntaxFault} (before : List α) (h : Stands tokens parser rest)
    (hentry : ∀ after, Stands tokens after rest → Follows tokens entry after item.result)
    (hothers : ∀ value, ∀ between : List Token, between.length + true.toNat ≤ rest.length →
      ∀ unread : List Token, unread.length < between.length → ∀ after,
        Stands tokens after unread → Follows tokens (others (before ++ [value])) after
          ((items unread).map (before ++ [value] ++ ·)).result) :
    Follows tokens (do
      noteExcess fault before.length
      let value ← entry
      if ← matchKind .comma then others (before ++ [value])
      else return before ++ [value]) parser
      (((item.andThen fun first rest _ =>
          accept [.comma] rest
            (fun _ after _ => (items after).map (first :: ·))
            (.done [first])).noting
        (Grammar.excess (untilEof tokens).2 fault before.length rest)).map
          (before ++ ·)).result := by
  rw [Attempt.map_noting, Attempt.map_andThen]
  apply excess h
  intro after h _
  apply (hentry after h).andThen
  intro value unread left after h _
  rw [Attempt.map_accept]
  apply chooseKind h
  · intro comma more short _ after h _ _
    have hthen := hothers value unread left more short after h
    simp only [List.append_assoc, List.singleton_append] at hthen
    rw [Attempt.map_map]
    exact hthen
  · intro _
    exact .done h _

/-- Entries before a closing parenthesis, of which there may be none. -/
theorem listed {entries : Parsing (List α)} {items : Attempt true (List α) rest}
    {fault : SyntaxFault} (make : Token → List α → β) (h : Stands tokens parser rest)
    (hentries : Follows tokens entries parser items.result) :
    Follows tokens (do
      let values ← optionally entries
      let paren ← consume .rightParen fault
      return make paren values) parser
      (accept [.rightParen] rest
        (fun paren _ _ => (.done (make paren []) : Attempt false β _))
        (items.andThen fun values rest _ =>
          (LoxLang.expect (untilEof tokens).2 .rightParen fault rest).map fun paren =>
            make paren values)).result := by
  have hchosen : optionally entries parser =
      (if startsWith .rightParen rest then pure [] else entries : Parsing (List α)) parser := by
    rw [optionally, get_bind, h.check]
  by_cases hnone : NoneAhead [.rightParen] rest
  · rw [startsWith_of_noneAhead hnone, if_neg Bool.false_ne_true] at hchosen
    rw [accept_of_noneAhead hnone]
    apply (hentries.of_eq hchosen).andThen
    intro values unread left after h _
    exact (expect h).map _
  · obtain ⟨token, later, rfl, hmem⟩ := exists_of_not_noneAhead hnone
    have hkind := List.mem_singleton.mp hmem
    rw [startsWith, hkind, beq_self_eq_true, if_pos rfl] at hchosen
    rw [accept, if_pos hmem]
    apply passed h
    rw [bind_of_ok hchosen, bind_of_ok (consume_of_kind h hkind)]

end Follows

end Parser

end LoxLang
