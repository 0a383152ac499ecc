/-
# Tokens with blanks between them

Tokens can be written down by spelling them in order with blanks between any two. A blank
ends every token that is spelled in full, so such a text is scanned without errors, and as
the tokens that were written.

A token that carries a value may be spelled in several ways, as `2` and `2.0` are. What is
scanned then has the same value, and only the text it was read from may differ.
-/

import LoxLang.Proofs.Token.Joining

namespace LoxLang

/-- What a token stands for: all of it but its line, and but its text if it carries a value
that it has from there. -/
def Token.sense (token : Token) : Token :=
  { token with lexeme := if token.payload.isSome then "" else token.lexeme, line := 0 }

namespace Spelling

/-- The characters that stand between tokens. -/
abbrev blanks : List Char :=
  [' ', '\t', '\r', '\n']

/-- The text is a spelling of the token, and if the token carries a value, any that has it. -/
structure Spells (word : List Char) (token : Token) : Prop where
  lexeme : Lexeme token.kind word
  carries : Carries token.kind word token.payload
  same : token.payload = none → token.lexeme = String.ofList word

/-- The text is the tokens in order, each followed by a blank or the end. -/
inductive Spaced : List Token → List Char → Prop
  | nil : Spaced [] []
  | blank {c : Char} {tokens : List Token} {text : List Char} :
      c ∈ blanks → Spaced tokens text → Spaced tokens (c :: text)
  | token {word text : List Char} {token : Token} {tokens : List Token} :
      Spells word token → Spaced tokens text → (∀ c ∈ text.head?, c ∈ blanks) →
      Spaced (token :: tokens) (word ++ text)

/-- Tokens that can be spelled can be written with blanks between them. -/
theorem exists_spaced {tokens : List Token} (h : ∀ token ∈ tokens, ∃ word, Spells word token) :
    ∃ text, Spaced tokens text := by
  induction tokens with
  | nil => exact ⟨[], .nil⟩
  | cons token tokens ih =>
      obtain ⟨hfirst, hothers⟩ := List.forall_mem_cons.mp h
      obtain ⟨word, hword⟩ := hfirst
      obtain ⟨text, htext⟩ := ih hothers
      have hblank : Spaced tokens (' ' :: text) := .blank (by decide) htext
      exact ⟨word ++ ' ' :: text, .token hword hblank (by simp)⟩

end Spelling

open Spelling

/-! ## Cutting before a blank -/

namespace Segment

variable {c : Char} {rest after text : List Char} {p : Char → Bool} {kind : TokenKind}

theorem takeWhile_of_head? (h : ∀ c ∈ rest.head?, p c = false) : rest.takeWhile p = [] := by
  cases rest with
  | nil => rfl
  | cons c rest => rw [List.takeWhile_cons_of_neg (by simp [h c rfl])]

theorem dropWhile_of_head? (h : ∀ c ∈ rest.head?, p c = false) : rest.dropWhile p = rest := by
  cases rest with
  | nil => rfl
  | cons c rest => rw [List.dropWhile_cons_of_neg (by simp [h c rfl])]

/-- Blanks are neither digits nor parts of words. -/
theorem not_part_of_blank (hblank : c ∈ blanks) :
    c.isDigit = false ∧ isWordPart c = false := by
  simp only [blanks, List.mem_cons, List.not_mem_nil, or_false] at hblank
  rcases hblank with rfl | rfl | rfl | rfl <;> exact ⟨rfl, rfl⟩

theorem fraction_of_blank (h : ∀ c ∈ rest.head?, c ∈ blanks) : fraction rest = ([], rest) := by
  cases rest with
  | nil => rfl
  | cons c rest =>
      have hpoint : c ≠ '.' := by
        rintro rfl
        exact absurd (h '.' rfl) (by decide)
      unfold fraction
      split
      next heq => exact absurd (List.cons.inj heq).1 hpoint
      next => rfl

theorem cut_operator (hlisted : (text, kind) ∈ operators) (h : ∀ c ∈ rest.head?, c ∈ blanks)
    (heq : text ++ rest = c :: after) : cut c after = (⟨.lexeme kind, text⟩, rest) := by
  have hrest : rest = [] ∨ ∃ more, rest = ' ' :: more ∨ rest = '\t' :: more ∨
      rest = '\r' :: more ∨ rest = '\n' :: more := by
    cases rest with
    | nil => exact .inl rfl
    | cons blank more => exact .inr ⟨more, by simpa using h blank rfl⟩
  -- what follows is looked at by one character, so each operator is cut by evaluation
  have hall : ∀ entry ∈ operators, ∀ c after, entry.1 ++ rest = c :: after →
      cut c after = (⟨.lexeme entry.2, entry.1⟩, rest) := by
    simp only [operators, List.forall_mem_cons, List.not_mem_nil, false_implies, implies_true,
      and_true]
    rcases hrest with rfl | ⟨more, rfl | rfl | rfl | rfl⟩
    all_goals
      and_intros
      all_goals
        intro c after heq
        cases heq
        rfl
  exact hall _ hlisted c after heq
/-- A word is cut whole before a blank. -/
theorem cut_word_of_blank (hword : Word text) (h : ∀ c ∈ rest.head?, c ∈ blanks)
    (heq : text ++ rest = c :: after) :
    cut c after = (⟨.lexeme (wordKind text), text⟩, rest) := by
  have hnone : ∀ c ∈ rest.head?, isWordPart c = false :=
    fun c hc => (not_part_of_blank (h c hc)).2
  cases text with
  | nil => cases hword
  | cons first others =>
      rw [List.cons_append] at heq
      cases heq
      rw [cut_word hword, takeWhile_of_head? hnone, dropWhile_of_head? hnone, List.append_nil]

/-- Every token is cut whole before a blank. -/
theorem cut_lexeme (hlexeme : Lexeme kind text) (h : ∀ c ∈ rest.head?, c ∈ blanks)
    (heq : text ++ rest = c :: after) : cut c after = (⟨.lexeme kind, text⟩, rest) := by
  have hnone : ∀ c ∈ rest.head?, c.isDigit = false :=
    fun c hc => (not_part_of_blank (h c hc)).1
  cases hlexeme with
  | operator hlisted => exact cut_operator hlisted h heq
  | string hquote =>
      rw [List.cons_append, List.append_assoc] at heq
      cases heq
      exact cut_string hquote
  | whole hdigits =>
      cases text with
      | nil => exact absurd rfl hdigits.1
      | cons first others =>
          rw [List.cons_append] at heq
          cases heq
          rw [cut_digits hdigits, takeWhile_of_head? hnone, dropWhile_of_head? hnone,
            fraction_of_blank h, List.append_nil, List.append_nil]
  | @fractional whole part hwhole hpart =>
      cases whole with
      | nil => exact absurd rfl hwhole.1
      | cons first others =>
          rw [List.append_assoc, List.cons_append] at heq
          cases heq
          rw [List.cons_append, cut_fractional hwhole hpart, takeWhile_of_head? hnone,
            dropWhile_of_head? hnone, List.append_nil]
          rfl
  | keyword keyword =>
      rw [cut_word_of_blank (word_keyword keyword) h heq, wordKind_word]
  | identifier hword hnone =>
      rw [cut_word_of_blank hword h heq, wordKind_of_identifier hnone]

end Segment

/-! ## Scanning -/

namespace Token

open Segment

variable {token : Token} {tokens : List Token} {word text : List Char}

theorem sense_of_spells (h : Spells word token) (line : Nat) :
    (Token.mk token.kind (String.ofList word) (payloadOf token.kind word) line).sense =
      token.sense := by
  have hpayload := h.carries.eq_payloadOf
  obtain ⟨kind, lexeme, payload, _⟩ := token
  obtain rfl : payload = payloadOf kind word := hpayload
  cases heq : payloadOf kind word with
  | none =>
      obtain rfl : lexeme = String.ofList word := h.same heq
      rfl
  | some payload => rfl

/-- Tokens that are written with blanks between them are scanned, with no errors. -/
theorem scanSegments_of_spaced (h : Spaced tokens text) (line : Nat) :
    ∃ (scanned : List Token) (last : Nat),
    scanSegments line (ofText text) = scanned.map .ok ++ [.ok (eof last)] ∧
      scanned.map sense = tokens.map sense := by
  induction h generalizing line with
  | nil =>
      rw [ofText]
      exact ⟨[], line, rfl, rfl⟩
  | blank hblank _ ih =>
      rw [ofText, cut_blank hblank]
      exact ih _
  | @token word text token tokens hword _ hblank ih =>
      cases heq : word ++ text with
      | nil => exact absurd (List.append_eq_nil_iff.mp heq).1 (spelled_lexeme hword.lexeme).ne_nil
      | cons c after =>
          rw [ofText, cut_lexeme hword.lexeme hblank heq]
          obtain ⟨scanned, last, hscanned, hsense⟩ :=
            ih (line + Segment.newlines ⟨.lexeme token.kind, word⟩)
          refine ⟨_ :: scanned, last, congrArg (List.cons _) hscanned, ?_⟩
          rw [List.map_cons, List.map_cons, sense_of_spells hword, hsense]

theorem ofScan_map_ok (tokens : List Token) : ofScan (tokens.map .ok) = tokens := by
  induction tokens with
  | nil => rfl
  | cons token tokens ih => exact congrArg (token :: ·) ih

end Token

theorem LexError.ofScan_map_ok (tokens : List Token) : ofScan (tokens.map .ok) = [] := by
  induction tokens with
  | nil => rfl
  | cons token tokens ih => exact ih

end LoxLang
