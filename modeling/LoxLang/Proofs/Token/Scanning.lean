/-
# What a source yields

What a source yields is told by its tokenisation: a token for each lexeme, an error for
each stray character and for a string that is never closed, all of them in their order,
and one token for the end. Each gets the line on which its last character stands.

This is told without scanning. A scan yields it and nothing else.
-/

import LoxLang.Proofs.Token.Tokenisation

namespace LoxLang

open Spelling

/-- The line on which a text ends that begins on the first line. -/
def lineAfter (text : List Char) : Nat :=
  text.count '\n' + 1

namespace Spelling

/-- What a token of the given kind and text carries. -/
inductive Carries : TokenKind → List Char → Option Payload → Prop
  | /-- What stands between the quotes. -/
    string {contents : List Char} :
      Carries .string ('"' :: (contents ++ ['"'])) (some (.text (String.ofList contents)))
  | number {text : List Char} :
      Carries .number text (some (.number (Decimal.ofDigits text).toFloat))
  | other {kind : TokenKind} {text : List Char} :
      kind ≠ .string → kind ≠ .number → Carries kind text none

/-- What the segments yield that stand after a text. -/
inductive Yields : List Char → List Segment → List ScanItem → Prop
  | done {before : List Char} :
      Yields before [] [.ok (.eof (lineAfter before))]
  | blank {before text : List Char} {segments : List Segment} {items : List ScanItem} :
      Yields (before ++ text) segments items → Yields before (⟨.blank, text⟩ :: segments) items
  | comment {before text : List Char} {segments : List Segment} {items : List ScanItem} :
      Yields (before ++ text) segments items → Yields before (⟨.comment, text⟩ :: segments) items
  | lexeme {before text : List Char} {segments : List Segment} {items : List ScanItem}
      {kind : TokenKind} {payload : Option Payload} :
      Carries kind text payload → Yields (before ++ text) segments items →
        Yields before (⟨.lexeme kind, text⟩ :: segments)
          (.ok ⟨kind, String.ofList text, payload, lineAfter (before ++ text)⟩ :: items)
  | stray {before text : List Char} {segments : List Segment} {items : List ScanItem}
      {error : LexError} :
      error.diagnostic = .lexical "Unexpected character." (lineAfter (before ++ text)) →
        Yields (before ++ text) segments items →
          Yields before (⟨.stray, text⟩ :: segments) (.error error :: items)
  | openString {before text : List Char} {segments : List Segment} {items : List ScanItem}
      {error : LexError} :
      error.diagnostic = .lexical "Unterminated string." (lineAfter (before ++ text)) →
        Yields (before ++ text) segments items →
          Yields before (⟨.openString, text⟩ :: segments) (.error error :: items)

variable {kind : TokenKind} {text before : List Char} {payload : Option Payload}
  {segments : List Segment} {items : List ScanItem}

theorem payloadOf_eq_none (noString : kind ≠ .string) (noNumber : kind ≠ .number) :
    payloadOf kind text = none := by
  unfold payloadOf
  split
  next => exact absurd rfl noString
  next => exact absurd rfl noNumber
  next => rfl

theorem Carries.eq_payloadOf (h : Carries kind text payload) : payload = payloadOf kind text := by
  cases h with
  | string => simp [payloadOf]
  | number => rfl
  | other noString noNumber => exact (payloadOf_eq_none noString noNumber).symm

theorem Lexeme.carries (h : Lexeme kind text) : Carries kind text (payloadOf kind text) := by
  have plain {kind : TokenKind} {text : List Char} (noString : kind ≠ .string)
      (noNumber : kind ≠ .number) : Carries kind text (payloadOf kind text) := by
    rw [payloadOf_eq_none noString noNumber]
    exact .other noString noNumber
  cases h with
  | operator listed =>
      have all : ∀ entry ∈ operators, entry.2 ≠ .string ∧ entry.2 ≠ .number := by decide
      exact plain (all _ listed).1 (all _ listed).2
  | string =>
      simp only [payloadOf, List.drop_one, List.tail_cons, List.dropLast_concat]
      exact .string
  | whole => exact .number
  | fractional => exact .number
  | keyword keyword => exact plain (by simp) (by simp)
  | identifier => exact plain (by simp) (by simp)

/-- The two lexical faults are worded differently. -/
theorem diagnostic_eq_iff (error : LexError) (fault : LexFault) (line : Nat) :
    error.diagnostic = .lexical fault.message line ↔ error = ⟨fault, line⟩ := by
  obtain ⟨other, otherLine⟩ := error
  cases fault <;> cases other <;> simp [LexError.diagnostic, LexFault.message]

theorem lineAfter_append (before text : List Char) :
    lineAfter (before ++ text) = lineAfter before + text.count '\n' := by
  simp only [lineAfter, List.count_append]
  omega

/-- Scanning counts lines by segments, and so the line of a segment is that of all the text
up to its end. -/
theorem scanSegments_cons (before : List Char) (segment : Segment) (segments : List Segment) :
    Token.scanSegments (lineAfter before) (segment :: segments) =
      (segment.item? (lineAfter (before ++ segment.text))).toList ++
        Token.scanSegments (lineAfter (before ++ segment.text)) segments := by
  rw [lineAfter_append]
  rfl

/-- What segments yield is what scanning them gives. -/
theorem Yields.eq_scanSegments (h : Yields before segments items) :
    items = Token.scanSegments (lineAfter before) segments := by
  induction h with
  | done => rfl
  | blank _ ih => rw [scanSegments_cons, ← ih]; rfl
  | comment _ ih => rw [scanSegments_cons, ← ih]; rfl
  | lexeme carries _ ih =>
      rw [scanSegments_cons, ← ih, carries.eq_payloadOf]
      rfl
  | stray worded _ ih =>
      rw [scanSegments_cons, ← ih, (diagnostic_eq_iff _ .unexpectedCharacter _).1 worded]
      rfl
  | openString worded _ ih =>
      rw [scanSegments_cons, ← ih, (diagnostic_eq_iff _ .unterminatedString _).1 worded]
      rfl

/-- Scanning segments gives what they yield. -/
theorem scanSegments_yields (before : List Char)
    (spelled : ∀ segment ∈ segments, Spelled segment.kind segment.text) :
    Yields before segments (Token.scanSegments (lineAfter before) segments) := by
  induction segments generalizing before with
  | nil => exact .done
  | cons segment segments ih =>
      have later := ih (before ++ segment.text) fun other member =>
        spelled other (List.mem_cons_of_mem segment member)
      have here := spelled segment List.mem_cons_self
      rw [scanSegments_cons]
      obtain ⟨kind, text⟩ := segment
      cases kind with
      | blank => exact .blank later
      | comment => exact .comment later
      | lexeme kind =>
          cases here with
          | proper proper =>
              cases proper with
              | lexeme lexeme => exact .lexeme lexeme.carries later
      | stray => exact .stray rfl later
      | openString => exact .openString rfl later

end Spelling

open Segment

/-- A source has one tokenisation, and what this yields is what scanning the source gives. -/
theorem Token.scan_longest_match (source : String) :
    ∃ segments, (∀ others, Tokenisation source.toList others ↔ others = segments) ∧
      ∀ items, Yields [] segments items ↔ items = Token.scan source := by
  refine ⟨Segment.ofText source.toList, fun others => tokenisation_iff, fun items => ⟨?_, ?_⟩⟩
  · exact Yields.eq_scanSegments
  · rintro rfl
    exact scanSegments_yields [] (ofText_tokenises source.toList).spelled

end LoxLang
