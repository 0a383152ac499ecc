/-
# How far attempts look ahead

A rule decides by the tokens that it reads and by the one that comes next. If all
tokens after that one are replaced by others, then it reads the same and notes the same
errors, and if it gave up it does so again, at the same place. If the rule can end where
it is, even the next token may be replaced, unless it is of one of the kinds that the
rule goes on with. The end of the source counts as a token of no such kind.

What was decided at the end may be decided otherwise once tokens follow. So nothing is
said of a rule that gave up there, except that its error is located there. The one error
that is not located at the next token is that of a number or a string without a value.

Each combinator of the rules gets one lemma.
-/

import LoxLang.Proofs.Grammar.Attempt

namespace LoxLang

open Grammar

/-! ## Results -/

/-- What came of an attempt, without the proof that it advanced. -/
inductive Result (α : Type)
  | /-- A value was read. -/
    read (value : α) (rest : List Token) (errors : List SyntaxError)
  | /-- The rule gave up with `rest` still unread. -/
    gaveUp (fatal : SyntaxError) (rest : List Token) (errors : List SyntaxError)

namespace Result

variable {α β : Type}

/-- Make something of the value that was read. -/
def map (f : α → β) : Result α → Result β
  | .read value rest errors => .read (f value) rest errors
  | .gaveUp fatal rest errors => .gaveUp fatal rest errors

/-- Put errors noted earlier in front. -/
def noting (errors : List SyntaxError) : Result α → Result α
  | .read value rest later => .read value rest (errors ++ later)
  | .gaveUp fatal rest later => .gaveUp fatal rest (errors ++ later)

/-- Go on after a success. -/
def andThen (result : Result α) (next : α → List Token → Result β) : Result β :=
  match result with
  | .read value rest errors => (next value rest).noting errors
  | .gaveUp fatal rest errors => .gaveUp fatal rest errors

end Result

namespace Attempt

variable {a b : Bool} {α β : Type} {tokens rest : List Token}

/-- What came of the attempt. -/
def result : Attempt a α tokens → Result α
  | .ok value rest errors _ => .read value rest errors
  | .fail fatal rest errors _ => .gaveUp fatal rest errors

@[simp]
theorem result_done (value : α) :
    (done value : Attempt false α tokens).result = .read value tokens [] := rfl

@[simp]
theorem result_map (f : α → β) (attempt : Attempt a α tokens) :
    (attempt.map f).result = attempt.result.map f := by
  cases attempt <;> rfl

@[simp]
theorem result_weaken (attempt : Attempt a α tokens) : attempt.weaken.result = attempt.result := by
  cases attempt <;> rfl

@[simp]
theorem result_widen {within : rest.length ≤ tokens.length} (attempt : Attempt a α rest) :
    (attempt.widen within).result = attempt.result := by
  cases attempt <;> rfl

@[simp]
theorem result_afterToken {token : Token} (attempt : Attempt b α rest) :
    (attempt.afterToken : Attempt a α (token :: rest)).result = attempt.result := by
  cases attempt <;> rfl

@[simp]
theorem result_noting (errors : List SyntaxError) (attempt : Attempt a α tokens) :
    (attempt.noting errors).result = attempt.result.noting errors := by
  cases attempt <;> rfl

theorem result_andThen (attempt : Attempt a α tokens)
    (next : α → (rest : List Token) → Attempt b β rest) :
    (attempt.andThen fun value rest _ => next value rest).result =
      attempt.result.andThen fun value rest => (next value rest).result := by
  cases attempt with
  | ok value rest errors left =>
      simp only [andThen, result, Result.andThen]
      cases next value rest <;> rfl
  | fail fatal rest errors left => rfl

theorem length_of_read {attempt : Attempt a α tokens} {value : α} {errors : List SyntaxError}
    (h : attempt.result = .read value rest errors) : rest.length + a.toNat ≤ tokens.length := by
  cases attempt with
  | ok value rest errors left =>
      cases h
      exact left
  | fail => cases h

/-- What advanced has used up some token. -/
theorem ne_nil_of_read {attempt : Attempt true α tokens} {value : α} {errors : List SyntaxError}
    (h : attempt.result = .read value rest errors) {used : List Token}
    (hused : tokens = used ++ rest) : used ≠ [] := by
  have hlength := length_of_read h
  intro hnil
  rw [hused, hnil, List.nil_append, Bool.toNat_true] at hlength
  exact Nat.not_succ_le_self _ hlength

end Attempt

theorem accept_of_noneAhead {a b : Bool} {α : Type} {kinds : List TokenKind} {tokens : List Token}
    {found : Token → (rest : List Token) → rest.length < tokens.length → Attempt b α rest}
    {absent : Attempt a α tokens} (h : NoneAhead kinds tokens) :
    accept kinds tokens found absent = absent := by
  cases tokens with
  | nil => rfl
  | cons token rest => exact if_neg (noneAhead_cons.mp h)

/-! ## What may stand in place of what -/

/-- The tokens start alike if all is replaced behind one of them. -/
theorem head?_append_cons (front rest other : List Token) (next : Token) :
    (front ++ next :: rest).head? = (front ++ next :: other).head? := by
  cases front <;> rfl

/-- Two continuations of the tokens start alike, or neither starts with a token of one of
the kinds. -/
def Interchangeable (kinds : List TokenKind) (rest other : List Token) : Prop :=
  rest.head? = other.head? ∨ NoneAhead kinds rest ∧ NoneAhead kinds other

namespace Interchangeable

variable {kinds others : List TokenKind} {rest other more : List Token}

theorem mono (h : Interchangeable kinds rest other) (hsub : ∀ kind ∈ others, kind ∈ kinds) :
    Interchangeable others rest other :=
  h.imp_right fun ⟨hrest, hother⟩ => ⟨hrest.mono hsub, hother.mono hsub⟩

/-- Behind tokens of their own, continuations make no difference. -/
theorem append (hmore : more ≠ []) : Interchangeable kinds (more ++ rest) (more ++ other) := by
  cases more with
  | nil => exact absurd rfl hmore
  | cons token more => exact .inl rfl

theorem noneAhead (h : Interchangeable kinds rest other) (hrest : NoneAhead kinds rest) :
    NoneAhead kinds other := by
  rcases h with hhead | ⟨_, hother⟩
  · intro token htoken
    rw [← hhead] at htoken
    exact hrest token htoken
  · exact hother

end Interchangeable

/-- The error is located at the next token, or at the end, or else at the number or string
that was read last. -/
def Located (eof : Token) (fatal : SyntaxError) (used rest : List Token) : Prop :=
  fatal.token = nextOr eof rest ∨
    ∃ front, used = front ++ [fatal.token] ∧
      (fatal.token.kind = .number ∨ fatal.token.kind = .string)

theorem Located.append {eof : Token} {fatal : SyntaxError} {used rest : List Token}
    (h : Located eof fatal used rest) (before : List Token) :
    Located eof fatal (before ++ used) rest := by
  rcases h with hnext | ⟨front, rfl, hkind⟩
  · exact .inl hnext
  · exact .inr ⟨before ++ front, (List.append_assoc _ _ _).symm, hkind⟩

/-! ## Local rules -/

section

open Attempt

variable {a b : Bool} {α β : Type} {eof : Token} {tokens : List Token}
  {kinds others : List TokenKind}

/-- The rule decides what to make of the tokens by those that it reads and the next one,
and where it ends only by whether the next one is of one of the kinds. -/
structure Local (kinds : List TokenKind)
    (rule : Token → (tokens : List Token) → Attempt a α tokens) (eof : Token)
    (tokens : List Token) : Prop where
  read : ∀ {value rest errors}, (rule eof tokens).result = .read value rest errors →
    ∃ used, tokens = used ++ rest ∧ ∀ eof other, Interchangeable kinds rest other →
      (rule eof (used ++ other)).result = .read value other errors
  gaveUp : ∀ {fatal rest errors}, (rule eof tokens).result = .gaveUp fatal rest errors →
    ∃ used, tokens = used ++ rest ∧ Located eof fatal used rest ∧
      ∀ next after, rest = next :: after → ∀ eof other,
        (rule eof (used ++ next :: other)).result = .gaveUp fatal (next :: other) errors

namespace Local

variable {rule : Token → (tokens : List Token) → Attempt a α tokens}
  {similar : Token → (tokens : List Token) → Attempt b α tokens}

theorem of_read {value : α} {rest : List Token} {errors : List SyntaxError}
    (h : (rule eof tokens).result = .read value rest errors) (used : List Token)
    (hused : tokens = used ++ rest)
    (hagain : ∀ eof other, Interchangeable kinds rest other →
      (rule eof (used ++ other)).result = .read value other errors) :
    Local kinds rule eof tokens where
  read heq := by
    rw [h] at heq
    cases heq
    exact ⟨used, hused, hagain⟩
  gaveUp heq := by
    rw [h] at heq
    cases heq

theorem of_gaveUp {fatal : SyntaxError} {rest : List Token} {errors : List SyntaxError}
    (h : (rule eof tokens).result = .gaveUp fatal rest errors) (used : List Token)
    (hused : tokens = used ++ rest) (hlocated : Located eof fatal used rest)
    (hagain : ∀ next after, rest = next :: after → ∀ eof other,
      (rule eof (used ++ next :: other)).result = .gaveUp fatal (next :: other) errors) :
    Local kinds rule eof tokens where
  read heq := by
    rw [h] at heq
    cases heq
  gaveUp heq := by
    rw [h] at heq
    cases heq
    exact ⟨used, hused, hlocated, hagain⟩

/-- Rules that agree on all tokens of some sort are local there together, if tokens that
start alike are of the same sort. -/
theorem of_sort (h : Local kinds rule eof tokens) (sort : List Token → Prop) (hsort : sort tokens)
    (hhead : ∀ other, tokens.head? = other.head? ∨ a = false ∧ Interchangeable kinds tokens other →
      sort other)
    (heq : ∀ eof tokens, sort tokens → (similar eof tokens).result = (rule eof tokens).result) :
    Local kinds similar eof tokens := by
  have hsame := heq eof tokens hsort
  cases hresult : (rule eof tokens).result with
  | read value rest errors =>
      obtain ⟨used, hused, hagain⟩ := h.read hresult
      apply of_read (hsame.trans hresult) used hused
      intro eof other hother
      rw [heq, hagain eof other hother]
      apply hhead
      cases used with
      | cons token used =>
          left
          rw [hused]
          rfl
      | nil =>
          right
          cases a with
          | false => exact ⟨rfl, by rwa [hused]⟩
          | true => exact absurd rfl (ne_nil_of_read hresult hused)
  | gaveUp fatal rest errors =>
      obtain ⟨used, hused, hlocated, hagain⟩ := h.gaveUp hresult
      apply of_gaveUp (hsame.trans hresult) used hused hlocated
      intro next after hrest eof other
      rw [heq, hagain next after hrest eof other]
      apply hhead
      left
      rw [hused, hrest]
      exact head?_append_cons used after other next

/-- A rule that advances may be known by the first token alone. -/
theorem of_head {rule similar : Token → (tokens : List Token) → Attempt true α tokens}
    {token : Token} {after : List Token} (h : Local kinds rule eof (token :: after))
    (heq : ∀ eof after, similar eof (token :: after) = rule eof (token :: after)) :
    Local kinds similar eof (token :: after) := by
  apply h.of_sort (·.head? = some token) rfl
  · intro other hother
    rcases hother with hhead | ⟨hfalse, _⟩
    · exact hhead.symm
    · cases hfalse
  · intro eof tokens hhead
    obtain ⟨after, rfl⟩ := List.head?_eq_some_iff.mp hhead
    rw [heq]

theorem congr (heq : ∀ eof tokens, (similar eof tokens).result = (rule eof tokens).result)
    (h : Local kinds rule eof tokens) : Local kinds similar eof tokens :=
  h.of_sort (fun _ => True) trivial (fun _ _ => trivial) fun eof tokens _ => heq eof tokens

theorem mono (h : Local others rule eof tokens) (hsub : ∀ kind ∈ others, kind ∈ kinds) :
    Local kinds rule eof tokens where
  read heq := by
    obtain ⟨used, hused, hagain⟩ := h.read heq
    exact ⟨used, hused, fun eof other hother => hagain eof other (hother.mono hsub)⟩
  gaveUp := h.gaveUp

theorem done {value : α} : Local kinds (fun _ _ => Attempt.done value) eof tokens :=
  of_read rfl [] rfl fun _ _ _ => rfl

/-- A token that is read whatever comes next. -/
theorem single {token : Token} {after : List Token} (value : α)
    (h : ∀ eof after, (rule eof (token :: after)).result = .read value after []) :
    Local kinds rule eof (token :: after) :=
  of_read (h eof after) [token] rfl fun eof other _ => h eof other

theorem giveUp_end {fault : SyntaxFault} (h : (rule eof []).result = .gaveUp ⟨fault, eof⟩ [] []) :
    Local kinds rule eof [] := by
  apply of_gaveUp h [] rfl (.inl rfl)
  intro next after hrest
  cases hrest

/-- At the end there is nothing to replace. -/
theorem at_end {rule : Token → (tokens : List Token) → Attempt true α tokens}
    (h : Local others rule eof []) (heq : (similar eof []).result = (rule eof []).result) :
    Local kinds similar eof [] where
  read hread := by
    rw [heq] at hread
    obtain ⟨used, hused, _⟩ := h.read hread
    exact absurd (List.append_eq_nil_iff.mp hused.symm).1 (ne_nil_of_read hread hused)
  gaveUp hfail := by
    rw [heq] at hfail
    obtain ⟨used, hused, hlocated, _⟩ := h.gaveUp hfail
    refine ⟨used, hused, hlocated, fun next after hrest => ?_⟩
    rw [hrest] at hused
    cases (List.append_eq_nil_iff.mp hused.symm).2

/-- Giving up at once is local, if the error is located at the next token. -/
theorem giveUp {fault : SyntaxFault}
    (h : ∀ eof tokens, (rule eof tokens).result = .gaveUp ⟨fault, nextOr eof tokens⟩ tokens []) :
    Local kinds rule eof tokens := by
  apply of_gaveUp (h eof tokens) [] rfl (.inl rfl)
  rintro next after rfl eof other
  exact h eof (next :: other)

theorem map {f : α → β} (h : Local kinds rule eof tokens) :
    Local kinds (fun eof tokens => (rule eof tokens).map f) eof tokens := by
  cases hresult : (rule eof tokens).result with
  | read value rest errors =>
      obtain ⟨used, hused, hagain⟩ := h.read hresult
      apply of_read (by rw [result_map, hresult]; rfl) used hused
      intro eof other hother
      rw [result_map, hagain eof other hother]
      rfl
  | gaveUp fatal rest errors =>
      obtain ⟨used, hused, hlocated, hagain⟩ := h.gaveUp hresult
      apply of_gaveUp (by rw [result_map, hresult]; rfl) used hused hlocated
      intro next after hrest eof other
      rw [result_map, hagain next after hrest eof other]
      rfl

theorem weaken (h : Local kinds rule eof tokens) :
    Local kinds (fun eof tokens => (rule eof tokens).weaken) eof tokens :=
  h.congr fun _ _ => result_weaken _

/-- Reading one token first changes nothing of what is decided by the others. -/
theorem cons {token : Token} {after : List Token}
    {inner : Token → (tokens : List Token) → Attempt b α tokens} (h : Local kinds inner eof after)
    (heq : ∀ eof tokens, rule eof (token :: tokens) = (inner eof tokens).afterToken) :
    Local kinds rule eof (token :: after) := by
  have hsame (eof : Token) (tokens : List Token) :
      (rule eof (token :: tokens)).result = (inner eof tokens).result := by
    rw [heq, result_afterToken]
  cases hresult : (inner eof after).result with
  | read value rest errors =>
      obtain ⟨used, hused, hagain⟩ := h.read hresult
      apply of_read ((hsame eof after).trans hresult) (token :: used) (by rw [hused]; rfl)
      intro eof other hother
      exact (hsame eof (used ++ other)).trans (hagain eof other hother)
  | gaveUp fatal rest errors =>
      obtain ⟨used, hused, hlocated, hagain⟩ := h.gaveUp hresult
      apply of_gaveUp ((hsame eof after).trans hresult) (token :: used) (by rw [hused]; rfl)
        (hlocated.append [token])
      intro next after hrest eof other
      exact (hsame eof (used ++ next :: other)).trans (hagain next after hrest eof other)

/-- Errors may be noted in front, also at the next token. -/
theorem noting {rule : Token → (tokens : List Token) → Attempt true α tokens}
    {errors : Token → List Token → List SyntaxError}
    (herrors : ∀ {tokens other}, tokens ≠ [] → tokens.head? = other.head? →
      ∀ eof eof', errors eof tokens = errors eof' other)
    (h : Local kinds rule eof tokens) :
    Local kinds (fun eof tokens => (rule eof tokens).noting (errors eof tokens)) eof tokens := by
  cases hresult : (rule eof tokens).result with
  | read value rest later =>
      obtain ⟨used, hused, hagain⟩ := h.read hresult
      have hne := ne_nil_of_read hresult hused
      apply of_read (by rw [result_noting, hresult]; rfl) used hused
      intro eof' other hother
      have hnoted : errors eof tokens = errors eof' (used ++ other) := by
        rw [hused]
        apply herrors (by simp [hne])
        cases used with
        | nil => exact absurd rfl hne
        | cons token used => rfl
      rw [result_noting, hagain eof' other hother, hnoted]
      rfl
  | gaveUp fatal rest later =>
      obtain ⟨used, hused, hlocated, hagain⟩ := h.gaveUp hresult
      apply of_gaveUp (by rw [result_noting, hresult]; rfl) used hused hlocated
      intro next after hrest eof' other
      have hnoted : errors eof tokens = errors eof' (used ++ next :: other) := by
        rw [hused, hrest]
        exact herrors (by simp) (head?_append_cons used after other next) eof eof'
      rw [result_noting, hagain next after hrest eof' other, hnoted]
      rfl

/-- One rule after another. If the second may read nothing, then what the first goes on
with must not follow either. -/
theorem andThen {next : α → Token → (rest : List Token) → Attempt b β rest}
    (h : Local others rule eof tokens) (hsub : b = false → ∀ kind ∈ others, kind ∈ kinds)
    (hnext : ∀ value rest, rest.length + a.toNat ≤ tokens.length →
      Local kinds (next value) eof rest) :
    Local kinds (fun eof tokens =>
      (rule eof tokens).andThen fun value rest _ => next value eof rest) eof tokens := by
  cases hfirst : (rule eof tokens).result with
  | gaveUp fatal rest errors =>
      obtain ⟨used, hused, hlocated, hagain⟩ := h.gaveUp hfirst
      apply of_gaveUp (by rw [result_andThen, hfirst]; rfl) used hused hlocated
      intro next after hrest eof other
      rw [result_andThen, hagain next after hrest eof other]
      rfl
  | read value rest errors =>
      obtain ⟨used, hused, hagain⟩ := h.read hfirst
      have hlocal := hnext value rest (length_of_read hfirst)
      cases hsecond : (next value eof rest).result with
      | read result unread later =>
          obtain ⟨more, hmore, hthen⟩ := hlocal.read hsecond
          apply of_read (by rw [result_andThen, hfirst, Result.andThen, hsecond]; rfl)
            (used ++ more) (by rw [hused, hmore, List.append_assoc])
          intro eof other hother
          have hbetween : Interchangeable others rest (more ++ other) := by
            rw [hmore]
            by_cases hnil : more = []
            · subst hnil
              cases b with
              | false => exact hother.mono (hsub rfl)
              | true => exact absurd rfl (ne_nil_of_read hsecond hmore)
            · exact .append hnil
          rw [List.append_assoc, result_andThen, hagain eof _ hbetween, Result.andThen,
            hthen eof other hother]
          rfl
      | gaveUp fatal unread later =>
          obtain ⟨more, hmore, hlocated, hthen⟩ := hlocal.gaveUp hsecond
          apply of_gaveUp (by rw [result_andThen, hfirst, Result.andThen, hsecond]; rfl)
            (used ++ more) (by rw [hused, hmore, List.append_assoc]) (hlocated.append used)
          intro token after hunread eof other
          have hbetween : Interchangeable others rest (more ++ token :: other) := by
            rw [hmore, hunread]
            exact .inl (head?_append_cons more after other token)
          rw [List.append_assoc, result_andThen, hagain eof _ hbetween, Result.andThen,
            hthen token after hunread eof other]
          rfl

/-- What is followed by a rule that advances may look ahead as it likes. -/
theorem before {next : α → Token → (rest : List Token) → Attempt true β rest}
    (h : Local others rule eof tokens)
    (hnext : ∀ value rest, rest.length + a.toNat ≤ tokens.length →
      Local kinds (next value) eof rest) :
    Local kinds (fun eof tokens =>
      (rule eof tokens).andThen fun value rest _ => next value eof rest) eof tokens :=
  h.andThen (fun hfalse => nomatch hfalse) hnext

/-- None of the kinds is ahead in one place of what starts alike, or may stand there. -/
theorem noneAhead {options : List TokenKind} (hsub : a = false → ∀ kind ∈ options, kind ∈ kinds)
    (hahead : NoneAhead options tokens) (other : List Token)
    (h : tokens.head? = other.head? ∨ a = false ∧ Interchangeable kinds tokens other) :
    NoneAhead options other := by
  rcases h with hhead | ⟨hfalse, hother⟩
  · exact Interchangeable.noneAhead (.inl hhead) hahead
  · exact (hother.mono (hsub hfalse)).noneAhead hahead

/-- A choice by the next token. If the rule may read nothing, then no such token must
follow. -/
theorem accept {options : List TokenKind}
    {found : Token → Token → (rest : List Token) → Attempt b α rest}
    (hsub : a = false → ∀ kind ∈ options, kind ∈ kinds)
    (hfound : ∀ token rest, rest.length < tokens.length → token.kind ∈ options →
      Local kinds (found token) eof rest)
    (habsent : NoneAhead options tokens → Local kinds rule eof tokens) :
    Local kinds (fun eof tokens =>
      LoxLang.accept options tokens (fun token rest _ => found token eof rest) (rule eof tokens))
      eof tokens := by
  by_cases hahead : NoneAhead options tokens
  · apply (habsent hahead).of_sort (NoneAhead options) hahead (noneAhead hsub hahead)
    intro eof tokens h
    rw [accept_of_noneAhead h]
  · obtain ⟨token, rest, rfl, hmem⟩ := exists_of_not_noneAhead hahead
    apply (hfound token rest (Nat.lt_succ_self _) hmem).cons
    intro eof tokens
    exact if_pos hmem

/-- What is read in any case may be chosen by any token. -/
theorem choose {options : List TokenKind}
    {found : Token → Token → (rest : List Token) → Attempt b α rest}
    {rule : Token → (tokens : List Token) → Attempt true α tokens}
    (hfound : ∀ token rest, rest.length < tokens.length → token.kind ∈ options →
      Local kinds (found token) eof rest)
    (habsent : NoneAhead options tokens → Local kinds rule eof tokens) :
    Local kinds (fun eof tokens =>
      LoxLang.accept options tokens (fun token rest _ => found token eof rest) (rule eof tokens))
      eof tokens :=
  .accept (fun hfalse => nomatch hfalse) hfound habsent

end Local

theorem local_expect {kind : TokenKind} {fault : SyntaxFault} :
    Local [] (fun eof tokens => expect eof kind fault tokens) eof tokens := by
  apply Local.choose
  · intro token rest _ _
    exact .done
  · intro _
    exact .giveUp fun _ _ => rfl

end

end LoxLang
