/-
# What attempts read

Two ways to speak of an attempt without opening it. It is sound for a property if
the property holds of whatever it reads; it yields a value if that is what it reads.
Both leave errors that a reading of the grammar admits out of account.

Each combinator of the rules gets one lemma for either way, which turns what its
parts read into what it reads itself.
-/

import LoxLang.Grammar.Statement
import LoxLang.Proofs.Grammar.Derivation

namespace LoxLang

open Grammar

namespace Grammar.Reading

/-- Whether a reading goes through although the errors were noted. The strict one
admits none at all, the relaxed one all that are not fatal. -/
def Admits : Reading → List SyntaxError → Prop
  | .strict, errors => errors = []
  | .relaxed, errors => ∀ error ∈ errors, error.fault.isFatal = false

variable {reading : Reading}

@[simp]
theorem admits_nil : reading.Admits [] := by
  cases reading with
  | strict => rfl
  | relaxed =>
      intro error herror
      cases herror

@[simp]
theorem admits_append {errors later : List SyntaxError} :
    reading.Admits (errors ++ later) ↔ reading.Admits errors ∧ reading.Admits later := by
  cases reading with
  | strict => exact List.append_eq_nil_iff
  | relaxed => exact List.forall_mem_append

theorem eq_nil_of_admits {errors : List SyntaxError} (h : reading.Admits errors)
    (hstrict : reading = .strict) : errors = [] := by
  subst hstrict
  exact h

/-- No reading goes through a fatal error. -/
theorem not_admits_fatal {error : SyntaxError} (hfatal : error.fault.isFatal = true) :
    ¬ reading.Admits [error] := by
  cases reading with
  | strict =>
      intro h
      cases h
  | relaxed =>
      intro h
      rw [h error (List.mem_singleton_self error)] at hfatal
      cases hfatal

/-- An error that is not fatal is noted on account of a limit, which only the strict
reading insists on. -/
theorem admits_singleton {error : SyntaxError} (hfatal : error.fault.isFatal = false)
    (hstrict : reading ≠ .strict) : reading.Admits [error] := by
  cases reading with
  | strict => exact absurd rfl hstrict
  | relaxed =>
      intro found hfound
      rw [List.mem_singleton.mp hfound]
      exact hfatal

end Grammar.Reading

/-- The next token is none of the given kinds, or there is no next token. -/
def NoneAhead (kinds : List TokenKind) (tokens : List Token) : Prop :=
  ∀ token ∈ tokens.head?, token.kind ∉ kinds

@[simp]
theorem noneAhead_nil (kinds : List TokenKind) : NoneAhead kinds [] := by
  intro token htoken
  cases htoken

@[simp]
theorem noneAhead_cons {kinds : List TokenKind} {token : Token} {rest : List Token} :
    NoneAhead kinds (token :: rest) ↔ token.kind ∉ kinds := by
  simp [NoneAhead]

theorem noneAhead_of_kind {kind : TokenKind} {kinds : List TokenKind} {token : Token}
    {rest : List Token} (h : token.kind = kind) (hkind : kind ∉ kinds) :
    NoneAhead kinds (token :: rest) := by
  rw [noneAhead_cons, h]
  exact hkind

/-- Otherwise there is a next token, and it is of one of the kinds. -/
theorem exists_of_not_noneAhead {kinds : List TokenKind} {tokens : List Token}
    (h : ¬ NoneAhead kinds tokens) :
    ∃ token rest, tokens = token :: rest ∧ token.kind ∈ kinds := by
  cases tokens with
  | nil => exact absurd (noneAhead_nil kinds) h
  | cons token rest =>
      rw [noneAhead_cons, Decidable.not_not] at h
      exact ⟨token, rest, rfl, h⟩

theorem NoneAhead.mono {kinds others : List TokenKind} {tokens : List Token}
    (h : NoneAhead kinds tokens) (hsub : ∀ kind ∈ others, kind ∈ kinds) :
    NoneAhead others tokens :=
  fun token htoken hmem => h token htoken (hsub token.kind hmem)

namespace Attempt

variable {a b : Bool} {α β : Type} {tokens : List Token} {reading : Reading}

/-! ## Soundness -/

/-- If the attempt succeeds with errors that are admitted, then `P` holds of the
tokens it used up, its value, and the tokens it left. If it fails its error is fatal. -/
def Sound (reading : Reading) (P : List Token → α → List Token → Prop) :
    Attempt a α tokens → Prop
  | .ok value rest errors _ =>
    reading.Admits errors → ∃ used, tokens = used ++ rest ∧ P used value rest
  | .fail fatal _ _ _ => fatal.fault.isFatal = true

variable {P P' : List Token → α → List Token → Prop} {Q : List Token → β → List Token → Prop}

theorem Sound.mono {attempt : Attempt a α tokens} (h : attempt.Sound reading P)
    (hP : ∀ used value rest, P used value rest → P' used value rest) :
    attempt.Sound reading P' := by
  cases attempt with
  | ok value rest errors left =>
      intro hadmits
      obtain ⟨used, hused, hp⟩ := h hadmits
      exact ⟨used, hused, hP used value rest hp⟩
  | fail fatal rest errors left => exact h

theorem sound_done {value : α} (h : P [] value tokens) :
    (done value : Attempt false α tokens).Sound reading P :=
  fun _ => ⟨[], rfl, h⟩

theorem Sound.map {attempt : Attempt a α tokens} {f : α → β}
    (h : attempt.Sound reading fun used value rest => Q used (f value) rest) :
    (attempt.map f).Sound reading Q := by
  cases attempt with
  | ok value rest errors left => exact h
  | fail fatal rest errors left => exact h

theorem Sound.weaken {attempt : Attempt a α tokens} (h : attempt.Sound reading P) :
    attempt.weaken.Sound reading P := by
  cases attempt with
  | ok value rest errors left => exact h
  | fail fatal rest errors left => exact h

/-- What was used up before may be known only once the attempt is seen to succeed. -/
theorem Sound.widen {rest : List Token} {within : rest.length ≤ tokens.length}
    {attempt : Attempt a α rest}
    (h : attempt.Sound reading fun more value unread =>
      ∃ used, tokens = used ++ rest ∧ P (used ++ more) value unread) :
    (attempt.widen within).Sound reading P := by
  cases attempt with
  | ok value unread errors left =>
      intro hadmits
      obtain ⟨more, hmore, used, hused, hp⟩ := h hadmits
      exact ⟨used ++ more, by rw [hused, hmore, List.append_assoc], hp⟩
  | fail fatal unread errors left => exact h

theorem Sound.afterToken {token : Token} {after : List Token} {attempt : Attempt b α after}
    (h : attempt.Sound reading fun used value rest => P (token :: used) value rest) :
    (attempt.afterToken : Attempt a α (token :: after)).Sound reading P := by
  cases attempt with
  | ok value rest errors left =>
      intro hadmits
      obtain ⟨used, hused, hp⟩ := h hadmits
      exact ⟨token :: used, by rw [hused, List.cons_append], hp⟩
  | fail fatal rest errors left => exact h

/-- What holds after a word of some kind holds after the token that is one. -/
theorem Sound.afterWord {token : Token} {after : List Token} {kind : TokenKind}
    {attempt : Attempt b α after} (hkind : token.kind = kind)
    (h : attempt.Sound reading fun used value rest =>
      ∀ word : Token, word.kind = kind → P (word :: used) value rest) :
    (attempt.afterToken : Attempt a α (token :: after)).Sound reading P := by
  apply Sound.afterToken
  apply h.mono
  intro used value rest hp
  exact hp token hkind

/-- Errors noted in front may be taken to be admitted, unless the attempt fails. -/
theorem Sound.noting {attempt : Attempt a α tokens} {errors : List SyntaxError}
    (h : attempt.Sound reading fun used value rest =>
      reading.Admits errors → P used value rest) :
    (attempt.noting errors).Sound reading P := by
  cases attempt with
  | ok value rest later left =>
      intro hadmits
      obtain ⟨herrors, hlater⟩ := Reading.admits_append.mp hadmits
      obtain ⟨used, hused, hp⟩ := h hlater
      exact ⟨used, hused, hp herrors⟩
  | fail fatal rest later left => exact h

theorem Sound.andThen {attempt : Attempt a α tokens}
    {next : α → (rest : List Token) → rest.length + a.toNat ≤ tokens.length → Attempt b β rest}
    (h : attempt.Sound reading P)
    (hnext : ∀ value rest left, (next value rest left).Sound reading fun more result unread =>
      ∀ used, P used value rest → Q (used ++ more) result unread) :
    (attempt.andThen next).Sound reading Q := by
  cases attempt with
  | fail fatal rest errors left => exact h
  | ok value rest errors left =>
      have hsecond := hnext value rest left
      simp only [Attempt.andThen]
      split
      next result unread later within heq =>
        rw [heq] at hsecond
        intro hadmits
        obtain ⟨herrors, hlater⟩ := Reading.admits_append.mp hadmits
        obtain ⟨used, hused, hp⟩ := h herrors
        obtain ⟨more, hmore, hq⟩ := hsecond hlater
        exact ⟨used ++ more, by rw [hused, hmore, List.append_assoc], hq used hp⟩
      next fatal unread later within heq =>
        rw [heq] at hsecond
        exact hsecond

/-! ## Yields -/

/-- The attempt succeeds with the value, leaves the rest, and notes nothing that is
not admitted. -/
def Yields (reading : Reading) (value : α) (rest : List Token) (attempt : Attempt a α tokens) :
    Prop :=
  ∃ errors left, attempt = .ok value rest errors left ∧ reading.Admits errors

variable {value : α} {result : β} {rest unread : List Token}

theorem yields_done : (done value : Attempt false α tokens).Yields reading value tokens :=
  ⟨[], _, rfl, Reading.admits_nil⟩

theorem Yields.map {attempt : Attempt a α tokens} (f : α → β)
    (h : attempt.Yields reading value rest) : (attempt.map f).Yields reading (f value) rest := by
  obtain ⟨errors, left, rfl, hadmits⟩ := h
  exact ⟨errors, left, rfl, hadmits⟩

theorem Yields.weaken {attempt : Attempt a α tokens} (h : attempt.Yields reading value rest) :
    attempt.weaken.Yields reading value rest := by
  obtain ⟨errors, left, rfl, hadmits⟩ := h
  exact ⟨errors, _, rfl, hadmits⟩

theorem Yields.widen {within : rest.length ≤ tokens.length} {attempt : Attempt a α rest}
    (h : attempt.Yields reading value unread) :
    (attempt.widen within).Yields reading value unread := by
  obtain ⟨errors, left, rfl, hadmits⟩ := h
  exact ⟨errors, _, rfl, hadmits⟩

theorem Yields.afterToken {token : Token} {attempt : Attempt b α rest}
    (h : attempt.Yields reading value unread) :
    (attempt.afterToken : Attempt a α (token :: rest)).Yields reading value unread := by
  obtain ⟨errors, left, rfl, hadmits⟩ := h
  exact ⟨errors, _, rfl, hadmits⟩

theorem Yields.noting {attempt : Attempt a α tokens} {errors : List SyntaxError}
    (h : attempt.Yields reading value rest) (herrors : reading.Admits errors) :
    (attempt.noting errors).Yields reading value rest := by
  obtain ⟨later, left, rfl, hadmits⟩ := h
  exact ⟨errors ++ later, left, rfl, Reading.admits_append.mpr ⟨herrors, hadmits⟩⟩

theorem Yields.andThen {attempt : Attempt a α tokens}
    {next : α → (rest : List Token) → rest.length + a.toNat ≤ tokens.length → Attempt b β rest}
    (h : attempt.Yields reading value rest)
    (hnext : ∀ left, (next value rest left).Yields reading result unread) :
    (attempt.andThen next).Yields reading result unread := by
  obtain ⟨errors, left, rfl, hadmits⟩ := h
  obtain ⟨later, within, hlater, hmore⟩ := hnext left
  refine ⟨errors ++ later, left_trans left within, ?_,
    Reading.admits_append.mpr ⟨hadmits, hmore⟩⟩
  simp only [Attempt.andThen, hlater]

end Attempt

/-! ## Single tokens -/

section

open Attempt

variable {a b : Bool} {α : Type} {tokens : List Token} {reading : Reading}
  {P : List Token → α → List Token → Prop} {kinds : List TokenKind}

theorem sound_accept
    {found : Token → (rest : List Token) → rest.length < tokens.length → Attempt b α rest}
    {absent : Attempt a α tokens}
    (hfound : ∀ token rest short, token.kind ∈ kinds → tokens = token :: rest →
      (found token rest short).Sound reading fun used value unread => P (token :: used) value unread)
    (habsent : NoneAhead kinds tokens → absent.Sound reading P) :
    (accept kinds tokens found absent).Sound reading P := by
  cases tokens with
  | nil => exact habsent (noneAhead_nil kinds)
  | cons token rest =>
      simp only [accept]
      split
      next hmem => exact (hfound token rest _ hmem rfl).afterToken
      next hmem => exact habsent (noneAhead_cons.mpr hmem)

theorem sound_expect (eof : Token) {kind : TokenKind} {fault : SyntaxFault}
    (hfatal : fault.isFatal = true) :
    (expect eof kind fault tokens).Sound reading fun used token _ =>
      used = [token] ∧ token.kind = kind := by
  apply sound_accept
  · intro token rest short hmem _
    exact sound_done ⟨rfl, List.mem_singleton.mp hmem⟩
  · intro _
    exact hfatal

/-- A token that has to be there ends a phrase, and the phrase is made of what came before. -/
theorem sound_expect_map (eof : Token) {kind : TokenKind} {fault : SyntaxFault} {make : Token → β}
    (hfatal : fault.isFatal = true)
    (h : ∀ token rest, token.kind = kind → Q [token] (make token) rest) :
    ((expect eof kind fault tokens).map make).Sound reading Q := by
  apply Sound.map
  apply (sound_expect eof hfatal).mono
  rintro _ token rest ⟨rfl, hkind⟩
  exact h token rest hkind

variable {value : α} {token : Token} {rest unread : List Token}

theorem yields_accept
    {found : Token → (after : List Token) → after.length < (token :: rest).length →
      Attempt b α after}
    {absent : Attempt a α (token :: rest)} (hmem : token.kind ∈ kinds)
    (h : ∀ short, (found token rest short).Yields reading value unread) :
    (accept kinds (token :: rest) found absent).Yields reading value unread := by
  simp only [accept, if_pos hmem]
  exact (h _).afterToken

theorem yields_accept_of_noneAhead
    {found : Token → (rest : List Token) → rest.length < tokens.length → Attempt b α rest}
    {absent : Attempt a α tokens} (hahead : NoneAhead kinds tokens)
    (h : absent.Yields reading value unread) :
    (accept kinds tokens found absent).Yields reading value unread := by
  cases tokens with
  | nil => exact h
  | cons token rest =>
      simp only [accept, if_neg (noneAhead_cons.mp hahead)]
      exact h

theorem yields_expect (eof : Token) {kind : TokenKind} {fault : SyntaxFault}
    (hkind : token.kind = kind) :
    (expect eof kind fault (token :: rest)).Yields reading token rest :=
  yields_accept (List.mem_singleton.mpr hkind) fun _ => yields_done

end

end LoxLang
