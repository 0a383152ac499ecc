/-
# What is blamed

The first fatal error that a rule finds is located at a token that cannot be there. What
the rule has read before that token can be completed to a phrase of the rule. But the
error is found again, whatever else follows the token, so that no phrase goes on with it.

Of these two facts the first is carried up through the rules by completing what stands
around a phrase, and the second by the rules being local. Each combinator of the rules
gets one lemma for both.
-/

import LoxLang.Proofs.Grammar.Locality

namespace LoxLang

open Grammar

/-! ## The first fatal error -/

/-- The first error that is fatal, if there is one. -/
def firstFatal (errors : List SyntaxError) : Option SyntaxError :=
  errors.find? (·.fault.isFatal)

theorem firstFatal_append {errors later : List SyntaxError} :
    firstFatal (errors ++ later) = (firstFatal errors).or (firstFatal later) :=
  List.find?_append

theorem firstFatal_eq_none_iff {errors : List SyntaxError} :
    firstFatal errors = none ↔ Reading.relaxed.Admits errors := by
  simp [firstFatal, Reading.Admits]

namespace Result

variable {α β : Type}

/-- All errors of an attempt, those noted on the way and the fatal one. -/
def errors : Result α → List SyntaxError
  | .read _ _ errors => errors
  | .gaveUp fatal _ errors => errors ++ [fatal]

@[simp]
theorem errors_map (f : α → β) (result : Result α) : (result.map f).errors = result.errors := by
  cases result <;> rfl

@[simp]
theorem errors_noting (errors : List SyntaxError) (result : Result α) :
    (result.noting errors).errors = errors ++ result.errors := by
  cases result with
  | read => rfl
  | gaveUp => exact List.append_assoc _ _ _

end Result

/-! ## Blaming -/

/-- The tokens begin a phrase, which more tokens complete. -/
def Begins {α : Type} (Phrase : List Token → α → Prop) (tokens : List Token) : Prop :=
  ∃ more value, Phrase (tokens ++ more) value

section

variable {α β : Type} {P : List Token → α → Prop} {Q : List Token → β → Prop} {tokens : List Token}

theorem Begins.of_phrase {value : α} (h : P tokens value) : Begins P tokens :=
  ⟨[], value, by rwa [List.append_nil]⟩

/-- Fewer tokens begin a phrase as well. -/
theorem Begins.front (front : List Token) (h : Begins P (front ++ tokens)) : Begins P front := by
  obtain ⟨more, value, hvalue⟩ := h
  exact ⟨tokens ++ more, value, by rwa [← List.append_assoc]⟩

/-- What begins a phrase begins whatever the phrase itself begins. -/
theorem Begins.within (h : Begins P tokens) (front : List Token)
    (hphrase : ∀ tokens value, P tokens value → Begins Q (front ++ tokens)) :
    Begins Q (front ++ tokens) := by
  obtain ⟨more, value, hvalue⟩ := h
  obtain ⟨rest, result, hresult⟩ := hphrase _ _ hvalue
  refine ⟨more ++ rest, result, ?_⟩
  simpa only [List.append_assoc] using hresult

end

/-- The errors that a rule reports. -/
def reportOf {a : Bool} {α : Type} (rule : Token → (tokens : List Token) → Attempt a α tokens)
    (eof : Token) (tokens : List Token) : List SyntaxError :=
  (rule eof tokens).result.errors

/-- If a fatal error is reported, then the first one is located at the next token after
some tokens of which `Fine` holds, and it is reported whatever follows that token. -/
def Blames (Fine : List Token → Prop) (report : Token → List Token → List SyntaxError) (eof : Token)
    (tokens : List Token) : Prop :=
  ∀ error, firstFatal (report eof tokens) = some error →
    ∃ used rest, tokens = used ++ rest ∧ error.token = nextOr eof rest ∧ Fine used ∧
      ∀ next after, rest = next :: after → ∀ eof other,
        firstFatal (report eof (used ++ next :: other)) = some error

section

open Attempt

variable {a b : Bool} {α β : Type} {tokens : List Token}

/-- What an attempt reports stays first if another follows it. -/
theorem firstFatal_andThen {attempt : Attempt a α tokens} {error : SyntaxError}
    (next : α → (rest : List Token) → Attempt b β rest)
    (h : firstFatal attempt.result.errors = some error) :
    firstFatal (attempt.andThen fun value rest _ => next value rest).result.errors =
      some error := by
  rw [result_andThen]
  cases hresult : attempt.result with
  | gaveUp fatal rest errors =>
      rw [hresult] at h
      exact h
  | read value rest errors =>
      rw [hresult] at h
      rw [Result.andThen, Result.errors_noting, firstFatal_append,
        show firstFatal errors = some error from h, Option.some_or]

theorem Attempt.Sound.of_read {reading : Reading} {P : List Token → α → List Token → Prop}
    {attempt : Attempt a α tokens} (h : attempt.Sound reading P) {value : α}
    {used rest : List Token} {errors : List SyntaxError}
    (hresult : attempt.result = .read value rest errors)
    (hadmits : reading.Admits errors) (hused : tokens = used ++ rest) : P used value rest := by
  cases attempt with
  | fail => cases hresult
  | ok value rest errors left =>
      cases hresult
      obtain ⟨front, hfront, hp⟩ := h hadmits
      rw [hused] at hfront
      rwa [List.append_cancel_right hfront]

end

namespace Blames

open Attempt

variable {a b : Bool} {α β : Type} {eof : Token} {tokens : List Token} {kinds : List TokenKind}
  {Fine Fine' : List Token → Prop} {report similar : Token → List Token → List SyntaxError}
  {rule : Token → (tokens : List Token) → Attempt a α tokens}

theorem mono (h : Blames Fine report eof tokens) (hfine : ∀ used, Fine used → Fine' used) :
    Blames Fine' report eof tokens := by
  intro error herror
  obtain ⟨used, rest, hused, htoken, hbefore, hagain⟩ := h error herror
  exact ⟨used, rest, hused, htoken, hfine used hbefore, hagain⟩

/-- Without fatal errors there is no one to blame. -/
theorem of_admits (h : Reading.relaxed.Admits (report eof tokens)) :
    Blames Fine report eof tokens := by
  intro error herror
  rw [firstFatal_eq_none_iff.mpr h] at herror
  cases herror

theorem of_read {value : α} {rest : List Token}
    (h : (rule eof tokens).result = .read value rest []) :
    Blames Fine (reportOf rule) eof tokens := by
  apply of_admits
  rw [reportOf, h]
  exact Reading.admits_nil

theorem done {value : α} : Blames Fine (reportOf fun _ _ => Attempt.done value) eof tokens :=
  of_read (result_done value)

/-- The end is blamed at once. -/
theorem at_end (fault : SyntaxFault) (hfine : Fine [])
    (h : firstFatal (report eof []) = some ⟨fault, eof⟩) : Blames Fine report eof [] := by
  intro error herror
  rw [h] at herror
  cases herror
  exact ⟨[], [], rfl, rfl, hfine, fun next after hnil => nomatch hnil⟩

/-- A token is blamed at once. -/
theorem at_token {token : Token} {after : List Token} (fault : SyntaxFault) (hfine : Fine [])
    (h : ∀ eof other, firstFatal (report eof (token :: other)) = some ⟨fault, token⟩) :
    Blames Fine report eof (token :: after) := by
  intro error herror
  rw [h] at herror
  cases herror
  refine ⟨[], token :: after, rfl, rfl, hfine, fun next rest hrest eof other => ?_⟩
  cases hrest
  exact h eof other

theorem of_nil (h : Blames Fine report eof []) (heq : similar eof [] = report eof []) :
    Blames Fine similar eof [] := by
  intro error herror
  rw [heq] at herror
  obtain ⟨used, rest, hused, htoken, hbefore, _⟩ := h error herror
  refine ⟨used, rest, hused, htoken, hbefore, fun next after hrest => ?_⟩
  rw [hrest] at hused
  cases (List.append_eq_nil_iff.mp hused.symm).2

/-- Tokens that start alike may be told apart by what is reported of them. -/
theorem of_sort (h : Blames Fine report eof tokens) (sort : List Token → Prop) (hsort : sort tokens)
    (hhead : ∀ other, tokens.head? = other.head? → sort other)
    (heq : ∀ eof tokens, sort tokens → similar eof tokens = report eof tokens) :
    Blames Fine similar eof tokens := by
  intro error herror
  rw [heq eof tokens hsort] at herror
  obtain ⟨used, rest, hused, htoken, hbefore, hagain⟩ := h error herror
  refine ⟨used, rest, hused, htoken, hbefore, fun next after hrest eof other => ?_⟩
  rw [heq, hagain next after hrest eof other]
  apply hhead
  rw [hused, hrest]
  exact head?_append_cons used after other next

theorem of_head {similar : Token → (tokens : List Token) → Attempt a α tokens} {token : Token}
    {after : List Token} (h : Blames Fine (reportOf rule) eof (token :: after))
    (heq : ∀ eof after, similar eof (token :: after) = rule eof (token :: after)) :
    Blames Fine (reportOf similar) eof (token :: after) := by
  apply h.of_sort (·.head? = some token) rfl
  · intro other hhead
    exact hhead.symm
  · intro eof tokens hhead
    obtain ⟨after, rfl⟩ := List.head?_eq_some_iff.mp hhead
    rw [reportOf, heq, reportOf]

/-- A rule that is given up is one that is blamed on the next token, or on the end. -/
theorem giveUp (fault : SyntaxFault) (hfine : Fine [])
    (h : ∀ eof tokens, firstFatal (report eof tokens) = some ⟨fault, nextOr eof tokens⟩) :
    Blames Fine report eof tokens := by
  cases tokens with
  | nil => exact at_end fault hfine (h eof [])
  | cons token after => exact at_token fault hfine fun eof other => h eof (token :: other)

theorem congr (h : Blames Fine report eof tokens)
    (heq : ∀ eof tokens, similar eof tokens = report eof tokens) : Blames Fine similar eof tokens :=
  h.of_sort (fun _ => True) trivial (fun _ _ => trivial) fun eof tokens _ => heq eof tokens

/-- A token that is read first stands before what is blamed. -/
theorem cons {token : Token} {after : List Token}
    {inner : Token → (tokens : List Token) → Attempt b α tokens}
    (h : Blames (fun used => Fine (token :: used)) (reportOf inner) eof after)
    (heq : ∀ eof tokens, rule eof (token :: tokens) = (inner eof tokens).afterToken) :
    Blames Fine (reportOf rule) eof (token :: after) := by
  have hsame (eof : Token) (tokens : List Token) :
      reportOf rule eof (token :: tokens) = reportOf inner eof tokens := by
    rw [reportOf, heq, result_afterToken, reportOf]
  intro error herror
  rw [hsame] at herror
  obtain ⟨used, rest, hused, htoken, hbefore, hagain⟩ := h error herror
  refine ⟨token :: used, rest, by rw [hused]; rfl, htoken, hbefore, ?_⟩
  intro next after hrest eof other
  rw [List.cons_append, hsame, hagain next after hrest eof other]

theorem of_eq {similar : Token → (tokens : List Token) → Attempt a α tokens}
    (heq : ∀ eof tokens, similar eof tokens = rule eof tokens)
    (h : Blames Fine (reportOf rule) eof tokens) : Blames Fine (reportOf similar) eof tokens := by
  apply h.congr
  intro eof tokens
  rw [reportOf, heq, reportOf]

theorem map {f : α → β} (h : Blames Fine (reportOf rule) eof tokens) :
    Blames Fine (reportOf fun eof tokens => (rule eof tokens).map f) eof tokens := by
  apply h.congr
  intro eof tokens
  rw [reportOf, reportOf, result_map, Result.errors_map]

theorem weaken (h : Blames Fine (reportOf rule) eof tokens) :
    Blames Fine (reportOf fun eof tokens => (rule eof tokens).weaken) eof tokens := by
  apply h.congr
  intro eof tokens
  rw [reportOf, reportOf, result_weaken]

/-- Errors that are not fatal are blamed on no token. -/
theorem noting {errors : Token → List Token → List SyntaxError}
    (herrors : ∀ eof tokens, Reading.relaxed.Admits (errors eof tokens))
    (h : Blames Fine (reportOf rule) eof tokens) :
    Blames Fine (reportOf fun eof tokens => (rule eof tokens).noting (errors eof tokens)) eof
      tokens := by
  have hsame (eof : Token) (tokens : List Token) :
      firstFatal (reportOf (fun eof tokens => (rule eof tokens).noting (errors eof tokens)) eof
        tokens) = firstFatal (reportOf rule eof tokens) := by
    rw [reportOf, result_noting, Result.errors_noting, firstFatal_append,
      firstFatal_eq_none_iff.mpr (herrors eof tokens), Option.none_or, reportOf]
  intro error herror
  rw [hsame] at herror
  obtain ⟨used, rest, hused, htoken, hbefore, hagain⟩ := h error herror
  refine ⟨used, rest, hused, htoken, hbefore, fun next after hrest eof other => ?_⟩
  rw [hsame, hagain next after hrest eof other]

/-- One rule after another. The second is to blame only if the first has read a phrase,
and then the first reads the same phrase again. -/
theorem andThen {next : α → Token → (rest : List Token) → Attempt b β rest}
    {P : List Token → α → List Token → Prop}
    (h : Blames Fine' (reportOf rule) eof tokens) (hlocal : Local kinds rule eof tokens)
    (hsound : (rule eof tokens).Sound .relaxed P) (hfine : ∀ used, Fine' used → Fine used)
    (hnext : ∀ value rest, rest.length + a.toNat ≤ tokens.length →
      Blames (fun more => ∀ used, P used value rest → Fine (used ++ more)) (reportOf (next value))
        eof rest) :
    Blames Fine (reportOf fun eof tokens =>
      (rule eof tokens).andThen fun value rest _ => next value eof rest) eof tokens := by
  intro error herror
  rw [reportOf, result_andThen] at herror
  cases hfirst : (rule eof tokens).result with
  | gaveUp fatal rest errors =>
      rw [hfirst] at herror
      have hreport : firstFatal (reportOf rule eof tokens) = some error := by
        rw [reportOf, hfirst]
        exact herror
      obtain ⟨used, unread, hused, htoken, hbefore, hagain⟩ := h error hreport
      refine ⟨used, unread, hused, htoken, hfine used hbefore, ?_⟩
      intro next after hunread eof other
      exact firstFatal_andThen _ (hagain next after hunread eof other)
  | read value rest errors =>
      rw [hfirst, Result.andThen, Result.errors_noting, firstFatal_append] at herror
      cases hnoted : firstFatal errors with
      | some noted =>
          rw [hnoted, Option.some_or] at herror
          have hreport : firstFatal (reportOf rule eof tokens) = some error := by
            rw [reportOf, hfirst, ← herror]
            exact hnoted
          obtain ⟨used, unread, hused, htoken, hbefore, hagain⟩ := h error hreport
          refine ⟨used, unread, hused, htoken, hfine used hbefore, ?_⟩
          intro next after hunread eof other
          exact firstFatal_andThen _ (hagain next after hunread eof other)
      | none =>
          rw [hnoted, Option.none_or] at herror
          have hlater := (hnext value rest (length_of_read hfirst)) error herror
          obtain ⟨more, unread, rfl, htoken, hbefore, hagain⟩ := hlater
          obtain ⟨used, hused, hread⟩ := hlocal.read hfirst
          have hp : P used value (more ++ unread) :=
            hsound.of_read hfirst (firstFatal_eq_none_iff.mp hnoted) hused
          have hwhole : tokens = used ++ more ++ unread := by rw [hused, List.append_assoc]
          refine ⟨used ++ more, unread, hwhole, htoken, hbefore used hp, ?_⟩
          rintro token after rfl eof other
          have hbetween := head?_append_cons more after other token
          rw [reportOf, List.append_assoc, result_andThen, hread eof _ (.inl hbetween),
            Result.andThen, Result.errors_noting, firstFatal_append, hnoted, Option.none_or]
          exact hagain token after rfl eof other

/-- A choice by the next token. -/
theorem accept {options : List TokenKind}
    {found : Token → Token → (rest : List Token) → Attempt b α rest}
    (hfound : ∀ token rest, rest.length < tokens.length → token.kind ∈ options →
      tokens = token :: rest →
      Blames (fun used => Fine (token :: used)) (reportOf (found token)) eof rest)
    (habsent : NoneAhead options tokens → Blames Fine (reportOf rule) eof tokens) :
    Blames Fine (reportOf fun eof tokens =>
      LoxLang.accept options tokens (fun token rest _ => found token eof rest) (rule eof tokens))
      eof tokens := by
  by_cases hahead : NoneAhead options tokens
  · apply (habsent hahead).of_sort (NoneAhead options) hahead
    · intro other hhead
      exact Interchangeable.noneAhead (.inl hhead) hahead
    · intro eof tokens h
      rw [reportOf, accept_of_noneAhead h, reportOf]
  · obtain ⟨token, rest, rfl, hmem⟩ := exists_of_not_noneAhead hahead
    apply (hfound token rest (Nat.lt_succ_self _) hmem rfl).cons
    intro eof tokens
    exact if_pos hmem

end Blames

section

variable {eof : Token} {tokens : List Token} {Fine : List Token → Prop} {kind : TokenKind}
  {fault : SyntaxFault}

theorem blames_expect (hfatal : fault.isFatal = true) (hfine : Fine []) :
    Blames Fine (reportOf fun eof tokens => expect eof kind fault tokens) eof tokens := by
  apply Blames.accept
  · intro token rest _ _ _
    exact .done
  · intro _
    exact .giveUp fault hfine fun eof tokens => List.find?_cons_of_pos hfatal

/-- A token that has to be there ends a phrase. -/
theorem blames_expect_map {β : Type} {make : Token → β} (hfatal : fault.isFatal = true)
    (hfine : Fine []) :
    Blames Fine (reportOf fun eof tokens => (expect eof kind fault tokens).map make) eof tokens :=
  (blames_expect hfatal hfine).map

/-- A token that has to be there stands before all that comes later. -/
theorem blames_expect_andThen {b : Bool} {β : Type}
    {next : Token → Token → (rest : List Token) → Attempt b β rest}
    (hfatal : fault.isFatal = true) (hfine : Fine [])
    (hnext : ∀ token rest, rest.length + true.toNat ≤ tokens.length →
      Blames (fun used => token.kind = kind → Fine (token :: used)) (reportOf (next token)) eof
        rest) :
    Blames Fine (reportOf fun eof tokens =>
      (expect eof kind fault tokens).andThen fun token rest _ => next token eof rest) eof
      tokens := by
  apply (blames_expect hfatal hfine).andThen local_expect (sound_expect eof hfatal)
  · exact fun _ => id
  · intro token rest left
    apply (hnext token rest left).mono
    rintro used h _ ⟨rfl, hkind⟩
    exact h hkind

end

end LoxLang
