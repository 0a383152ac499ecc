/-
# Reading from a list of tokens

A rule of the grammar is applied to the tokens that are left. It either reads a
value off their front or gives up on a fatal error; on the way it may note errors
that are not fatal. Its type tells whether a success must use up a token, and every
attempt carries the proof of that: it is what makes the recursive rules of the
grammar end.

The end of the source is not among the tokens. Where a rule meets it, the error is
located at a token for the end that all rules are given.
-/

import LoxLang.Grammar.Fault

namespace LoxLang

/-- What a rule makes of the given tokens. A success of one that `advances` has used
up at least one of them. -/
inductive Attempt (advances : Bool) (α : Type) (tokens : List Token)
  | /-- A value was read. -/
    ok (value : α) (rest : List Token) (errors : List SyntaxError)
      (left : rest.length + advances.toNat ≤ tokens.length)
  | /-- The rule gave up with `rest` still unread. -/
    fail (fatal : SyntaxError) (rest : List Token) (errors : List SyntaxError)
      (left : rest.length ≤ tokens.length)

namespace Attempt

variable {a b : Bool} {α β : Type} {tokens : List Token}

/-- Read nothing more. -/
@[inline]
def done (value : α) : Attempt false α tokens :=
  .ok value tokens [] (Nat.le_refl _)

/-- Put errors noted earlier in front of those of an attempt. -/
@[inline]
def noting (errors : List SyntaxError) : Attempt a α tokens → Attempt a α tokens
  | .ok value rest later left => .ok value rest (errors ++ later) left
  | .fail fatal rest later left => .fail fatal rest (errors ++ later) left

/-- Make something of the value that was read. -/
@[inline]
def map (f : α → β) : Attempt a α tokens → Attempt a β tokens
  | .ok value rest errors left => .ok (f value) rest errors left
  | .fail fatal rest errors left => .fail fatal rest errors left

/-- Forget whether a token was used up. -/
@[inline]
def weaken : Attempt a α tokens → Attempt false α tokens
  | .ok value rest errors left => .ok value rest errors (Nat.le_of_add_right_le left)
  | .fail fatal rest errors left => .fail fatal rest errors left

/-- The same attempt, seen from further back. -/
@[inline]
def widen {rest : List Token} (within : rest.length ≤ tokens.length) :
    Attempt a α rest → Attempt a α tokens
  | .ok value unread errors left => .ok value unread errors (Nat.le_trans left within)
  | .fail fatal unread errors left => .fail fatal unread errors (Nat.le_trans left within)

/-- The attempt that read one token before this one. -/
@[inline]
def afterToken {token : Token} {rest : List Token} :
    Attempt b α rest → Attempt a α (token :: rest)
  | .ok value unread errors left =>
    .ok value unread errors (Nat.add_le_add (Nat.le_of_add_right_le left) (Bool.toNat_le a))
  | .fail fatal unread errors left => .fail fatal unread errors (Nat.le_succ_of_le left)

theorem left_trans {rest unread : List Token} (left : rest.length + a.toNat ≤ tokens.length)
    (within : unread.length + b.toNat ≤ rest.length) :
    unread.length + (a || b).toNat ≤ tokens.length := by
  cases a
  · exact Nat.le_trans within left
  · exact Nat.le_trans (Nat.succ_le_succ (Nat.le_of_add_right_le within)) left

/-- Go on after a success, with what it read and what it left. -/
@[inline]
def andThen (attempt : Attempt a α tokens)
    (next : α → (rest : List Token) → rest.length + a.toNat ≤ tokens.length → Attempt b β rest) :
    Attempt (a || b) β tokens :=
  match attempt with
  | .ok value rest errors left =>
    match next value rest left with
    | .ok result unread later within =>
      .ok result unread (errors ++ later) (left_trans left within)
    | .fail fatal unread later within =>
      .fail fatal unread (errors ++ later) (Nat.le_trans within (Nat.le_of_add_right_le left))
  | .fail fatal rest errors left => .fail fatal rest errors left

end Attempt

/-- The token that an error about the next token is located at. -/
def nextOr (eof : Token) : List Token → Token
  | [] => eof
  | token :: _ => token

/-- Whether the next token is of the given kind. -/
def startsWith (kind : TokenKind) : List Token → Bool
  | [] => false
  | token :: _ => token.kind == kind

/-- Read the next token if it is of one of the given kinds, and do without it
otherwise. -/
@[inline]
def accept {a b : Bool} {α : Type} (kinds : List TokenKind) (tokens : List Token)
    (found : Token → (rest : List Token) → rest.length < tokens.length → Attempt b α rest)
    (absent : Attempt a α tokens) : Attempt a α tokens :=
  match tokens with
  | [] => absent
  | token :: rest =>
    if token.kind ∈ kinds then (found token rest (Nat.lt_succ_self _)).afterToken else absent

/-- Read a token of the given kind, or give up. -/
def expect (eof : Token) (kind : TokenKind) (fault : SyntaxFault) (tokens : List Token) :
    Attempt true Token tokens :=
  accept [kind] tokens (fun token _ _ => .done token)
    (.fail ⟨fault, nextOr eof tokens⟩ tokens [] (Nat.le_refl _))

end LoxLang
